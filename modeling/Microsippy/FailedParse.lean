import Microsippy.AuthHdr
import Microsippy.Regions

/-! # Failed parses

What `usipy_sip_uri_parse`, `usipy_sip_hdr_nameaddr_parse`, `usipy_sip_hdr_via_parse` and
`usipy_sip_hdr_auth_parse` leave of the heap when they fail. Each puts a structure in a counted block
and extends it by its parameters.
-/

namespace Microsippy

set_option autoImplicit false

/-- More of a heap is taken and nothing is written or given back. -/
structure Heap.Takes (hp hp' : Heap) : Prop where
  tsize : hp'.tsize = hp.tsize
  first : hp'.first = hp.first
  le : hp.alen ≤ hp'.alen

instance : IsPreorder Heap Heap.Takes where
  refl _ := ⟨rfl, rfl, Nat.le_refl _⟩
  trans _ _ _ h h' := ⟨h'.tsize.trans h.tsize, h'.first.trans h.first, Nat.le_trans h.le h'.le⟩

/-- The arena up to `n` as it was, with the top there. -/
structure Heap.BackTo (n : Nat) (hp hp' : Heap) : Prop extends hp.Same hp.alen hp' where
  top : hp'.alen = n

/-- A heap as it was before a call. -/
abbrev Heap.Untouched (hp hp' : Heap) : Prop := hp.BackTo hp.alen hp'

theorem takes_aextend (nlen start : Nat) : Op.Keeps Heap.Takes (Heap.aextend nlen start) :=
  .bind .get fun _ => .bind (.require _ _) fun _ => .modify fun _ => ⟨rfl, rfl, Nat.le_add_right _ _⟩

theorem takes_extendPairs (size : Nat → Nat) (start n : Nat) (pps : List TvPair) :
    Op.Keeps Heap.Takes (extendPairs size start n pps) := by
  induction pps generalizing n with
  | nil => exact .pure ()
  | cons pp pps ih => exact .bind (takes_aextend _ _) fun _ => ih (n + 1)

theorem takes_assign (m : Mem) (start : Nat) (ap : Auth) (pps : List TvPair) :
    Op.Keeps Heap.Takes (Auth.assign m start ap pps) := by
  induction pps generalizing ap with
  | nil => exact .pure ap
  | cons pp pps ih => exact .bind (takes_aextend _ _) fun _ => ih (ap.assignKnown m pp)

/-- A structure in a counted block, which `body` fills in and extends. -/
def inBlock {α : Type} (size : Nat) (body : Nat → Heap → HeapM α) : HeapM α := do
  let start ← Heap.allocCnt size
  let hp ← Op.get
  Op.cleanup (Heap.cntRollback start) (body start hp)

/-- Whether the bare structure fits. -/
def Heap.HasRoom (hp : Heap) (size : Nat) : Prop :=
  Heap.alignedSize hp.alen - hp.alen + Heap.alignedSize size ≤ hp.remaining

theorem allocCnt_error {hp hp' : Heap} {size : Nat} {e : Unit}
    (hRun : (Heap.allocCnt size).run hp = some (.error e, hp')) : ¬ hp.HasRoom size ∧ hp' = hp := by
  simp only [Heap.allocCnt, Heap.alloc, Heap.run_reserve, if_true] at hRun
  split at hRun
  · rename_i hFull
    obtain ⟨-, rfl⟩ := Prod.mk.inj (Option.some.inj hRun)
    exact ⟨Nat.not_le_of_lt hFull, rfl⟩
  · cases (Prod.mk.inj (Option.some.inj hRun)).1

/-- The counter does not have the padding before the block, which a rollback leaves taken. -/
theorem inBlock_failed {α : Type} {size : Nat} {body : Nat → Heap → HeapM α} {hp hp' : Heap}
    {e : Unit} (hBody : ∀ start hp, Op.Keeps Heap.Takes (body start hp))
    (hRun : (inBlock size body).run hp = some (.error e, hp')) :
    (¬ hp.HasRoom size ∧ hp.Untouched hp') ∨
      (hp.HasRoom size ∧ hp.BackTo (Heap.alignedSize hp.alen) hp') := by
  rw [inBlock, Op.run_bind] at hRun
  cases hAlloc : (Heap.allocCnt size).run hp with
  | none =>
    rw [hAlloc] at hRun
    cases hRun
  | some out =>
    obtain ⟨r, hp₁⟩ := out
    rw [hAlloc] at hRun
    cases r with
    | error e =>
      obtain ⟨hFull, rfl⟩ := allocCnt_error hAlloc
      obtain ⟨-, rfl⟩ := Prod.mk.inj (Option.some.inj hRun)
      exact .inl ⟨hFull, Heap.Same.refl _ _, rfl⟩
    | ok start =>
      obtain ⟨hStart, hRoom, rfl⟩ := Heap.reserve_ok.mp hAlloc
      rw [if_pos rfl] at hStart
      subst hStart
      obtain ⟨hp₂, hFailed, rfl⟩ := Op.cleanup_error.mp hRun
      have hTakes := hBody _ _ _ _ _ hFailed
      have hLe := Heap.le_alignedSize hp.alen
      refine .inr ⟨hRoom, ⟨hTakes.tsize, fun k hk => ?_⟩, rfl⟩
      show hp₂.first.writeAt (Heap.alignedSize hp.alen) _ k = hp.first k
      rw [Arena.writeAt, if_neg (by omega), hTakes.first]

/-! ## The four parsers -/

inductive ParserKind where
  | uri | nameaddr | via | auth
  deriving DecidableEq, Repr

/-- A call of one of the parsers on a string, among the arenas of the slots and over some stack. -/
structure ParseCall where
  kind : ParserKind
  stack : Str
  mem : Mem
  str : Str

namespace ParseCall

/-- The size of the structure without parameters. -/
def size (c : ParseCall) : Nat :=
  match c.kind with
  | .uri => Uri.sizeof 0
  | .nameaddr => NameAddr.sizeof 0
  | .via => Via.sizeof 0
  | .auth => Auth.sizeof 0

def run (c : ParseCall) : HeapM Unit :=
  match c.kind with
  | .uri => do let _ ← Uri.parse c.mem c.str
  | .nameaddr => do let _ ← NameAddr.parse c.mem c.str
  | .via => do let _ ← Via.parse c.stack c.mem c.str
  | .auth => do let _ ← Auth.parse c.mem c.str

theorem failed_of {α : Type} {x : HeapM α} {hp hp' : Heap} {e : Unit}
    (hRun : (do let _ ← x : HeapM Unit).run hp = some (.error e, hp')) :
    x.run hp = some (.error e, hp') := by
  obtain ⟨r, hParse, hFailed⟩ := Op.bind_pure_some.mp hRun
  cases r with
  | ok a => cases hFailed
  | error e => exact hParse

/-- A failed parse gives the structure back, and keeps the padding before it. -/
theorem run_failed {c : ParseCall} {hp hp' : Heap} {e : Unit}
    (hRun : Op.run c.run hp = some (.error e, hp')) :
    (¬ hp.HasRoom c.size ∧ hp.Untouched hp') ∨
      (hp.HasRoom c.size ∧ hp.BackTo (Heap.alignedSize hp.alen) hp') := by
  obtain ⟨kind, stack, m, str⟩ := c
  cases kind with
  | uri =>
    have hParse : (inBlock (Uri.sizeof 0) _).run hp = _ := failed_of hRun
    refine inBlock_failed (fun start hp => ?_) hParse
    exact .bind (.orElse _ _) fun up => .bind (takes_extendPairs _ _ _ _) fun _ =>
      .bind (takes_extendPairs _ _ _ _) fun _ => .pure _
  | nameaddr =>
    have hParse : (inBlock (NameAddr.sizeof 0) _).run hp = _ := failed_of hRun
    refine inBlock_failed (fun start hp => ?_) hParse
    exact .bind (.orElse _ _) fun nap => .bind (takes_extendPairs _ _ _ _) fun _ => .pure _
  | via =>
    have hParse : (inBlock (Via.sizeof 0) _).run hp = _ := failed_of hRun
    refine inBlock_failed (fun start hp => ?_) hParse
    exact .bind (.orElse _ _) fun vp => .bind (takes_extendPairs _ _ _ _) fun _ => .pure _
  | auth =>
    have hParse : (inBlock (Auth.sizeof 0) _).run hp = _ := failed_of hRun
    refine inBlock_failed (fun start hp => ?_) hParse
    exact .bind (.orElse _ _) fun x => takes_assign _ _ _ _

/-- Calls one after the other that all fail. -/
def AllFail : List ParseCall → Heap → Heap → Prop
  | [], hp, hp' => hp' = hp
  | c :: cs, hp, hp' => ∃ e hp₁, Op.run c.run hp = some (.error e, hp₁) ∧ AllFail cs hp₁ hp'

theorem AllFail.le {cs : List ParseCall} {hp hp' : Heap} (h : AllFail cs hp hp') :
    hp.alen ≤ hp'.alen := by
  induction cs generalizing hp with
  | nil => exact Nat.le_of_eq (congrArg Heap.alen h.symm)
  | cons c cs ih =>
    obtain ⟨e, hp₁, hRun, hRest⟩ := h
    have hStep : hp.alen ≤ hp₁.alen := by
      obtain ⟨-, hBack⟩ | ⟨-, hBack⟩ := run_failed hRun
      · exact Nat.le_of_eq hBack.top.symm
      · rw [hBack.top]
        exact Heap.le_alignedSize _
    exact Nat.le_trans hStep (ih hRest)

/-- Nothing below the top is written to by parses that fail. -/
theorem AllFail.same {cs : List ParseCall} {hp hp' : Heap} (h : AllFail cs hp hp') :
    hp.Same hp.alen hp' := by
  induction cs generalizing hp with
  | nil => exact h ▸ Heap.Same.refl _ _
  | cons c cs ih =>
    obtain ⟨e, hp₁, hRun, hRest⟩ := h
    obtain ⟨-, hBack⟩ | ⟨-, hBack⟩ := run_failed hRun
    · exact hBack.toSame.trans (hBack.top ▸ ih hRest)
    · have hLe : hp.alen ≤ hp₁.alen := hBack.top ▸ Heap.le_alignedSize _
      exact hBack.toSame.trans ((ih hRest).mono hLe)

/-- Failing parses give back all they took if and only if the heap is at an aligned offset, or is
too full for the bare structure of any of them. -/
theorem failed_untouched_iff {cs : List ParseCall} {hp hp' : Heap} (hFail : AllFail cs hp hp') :
    hp.Untouched hp' ↔ hp.alen % 8 = 0 ∨ ∀ c ∈ cs, ¬ hp.HasRoom c.size := by
  have hSame := hFail.same
  have hTop : hp.Untouched hp' ↔ hp'.alen = hp.alen :=
    ⟨fun h => h.top, fun h => ⟨hSame, h⟩⟩
  rw [hTop]
  clear hSame hTop
  induction cs generalizing hp with
  | nil => simp [show hp' = hp from hFail]
  | cons c cs ih =>
    obtain ⟨e, hp₁, hRun, hRest⟩ := hFail
    have hIh := ih hRest
    obtain ⟨hFull, hBack⟩ | ⟨hRoom, hBack⟩ := run_failed hRun
    · have hRooms : ∀ n, hp₁.HasRoom n ↔ hp.HasRoom n := by
        intro n
        simp only [Heap.HasRoom, Heap.remaining, hBack.top, hBack.tsize]
      simp only [hRooms, hBack.top] at hIh
      simp only [List.forall_mem_cons, hFull, not_false_eq_true, true_and, hIh]
    · have hNo : ¬ ∀ d ∈ c :: cs, ¬ hp.HasRoom d.size := fun hAll => hAll c List.mem_cons_self hRoom
      have hLe := AllFail.le hRest
      have hAligned := Heap.alignedSize_mod hp.alen
      have hGrown := Heap.le_alignedSize hp.alen
      simp only [hBack.top, hAligned, true_or, iff_true] at hIh
      simp only [hNo, or_false, hIh]
      constructor
      · intro hEq
        omega
      · intro hMod
        exact Heap.alignedSize_of_mod hMod

/-- A parse of a text without a scheme, from an aligned offset on. -/
theorem failed_untouched_iff_noScheme :
    ∃ hp', Heap.Untouched (Heap.init none .zero 128 0) hp' := by
  have hTest : (Op.run (run ⟨.uri, Str.null, fun _ => .zero, Str.lit (bytes "sip")⟩)
      (Heap.init none .zero 128 0)).any (fun out => out.1.toOption.isNone) = true := by
    decide +kernel
  obtain ⟨⟨r, hp'⟩, hRun, hFailed⟩ := (Option.any_eq_true _ _).mp hTest
  cases r with
  | ok u => cases hFailed
  | error e =>
    have hFail : AllFail [⟨.uri, Str.null, fun _ => .zero, Str.lit (bytes "sip")⟩]
        (Heap.init none .zero 128 0) hp' := ⟨e, hp', hRun, rfl⟩
    exact ⟨hp', (failed_untouched_iff hFail).mpr (.inl (by decide))⟩

/-- A heap with a byte taken: the padding that follows is lost. -/
theorem padding_kept : ¬ ∀ (c : ParseCall) (hp hp' : Heap) (e : Unit),
    Op.run c.run hp = some (.error e, hp') → hp.Untouched hp' := by
  intro hAll
  have hTest : (Op.run (run ⟨.uri, Str.null, fun _ => .zero, Str.lit (bytes "sip")⟩)
      { Heap.init none .zero 128 0 with alen := 1 }).any (fun out =>
        out.1.toOption.isNone && out.2.alen == 8) = true := by
    decide +kernel
  obtain ⟨⟨r, hp'⟩, hRun, hTest⟩ := (Option.any_eq_true _ _).mp hTest
  simp only [Bool.and_eq_true, beq_iff_eq] at hTest
  obtain ⟨hFailed, hTop⟩ := hTest
  cases r with
  | ok u => cases hFailed
  | error e =>
    have hBack := (hAll _ _ _ _ hRun).top
    rw [hTop] at hBack
    cases hBack

end ParseCall

end Microsippy
