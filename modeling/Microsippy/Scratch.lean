import Microsippy.Tm.Uas

/-! # What stays on a scratch heap

The operations that take from a heap leave what was taken before: the strings kept of a message read
the same until a rollback.
-/

namespace Microsippy

set_option autoImplicit false

/-! ## Builders -/

namespace Chunk

/-- The strings a piece is written from. -/
def strs : Chunk → List Str
  | need _ => []
  | put _ s => [s]
  | print _ parts => parts
  | fail => []

/-- What a piece writes. -/
def out (rd : Str → Bytes) : Chunk → Bytes
  | need _ => []
  | put _ s => rd s
  | print _ parts => (parts.map fun s => cstr (rd s)).flatten
  | fail => []

/-- What a builder writes when it has the room. -/
def outAll (rd : Str → Bytes) (cs : List Chunk) : Bytes := (cs.map (out rd)).flatten

@[simp] theorem outAll_nil (rd : Str → Bytes) : outAll rd [] = [] := rfl

@[simp] theorem outAll_cons (rd : Str → Bytes) (c : Chunk) (cs : List Chunk) :
    outAll rd (c :: cs) = out rd c ++ outAll rd cs := rfl

@[simp] theorem outAll_append (rd : Str → Bytes) (cs ds : List Chunk) :
    outAll rd (cs ++ ds) = outAll rd cs ++ outAll rd ds := by
  simp [outAll]

@[simp] theorem outAll_flatten (rd : Str → Bytes) (css : List (List Chunk)) :
    outAll rd css.flatten = (css.map (outAll rd)).flatten := by
  induction css with
  | nil => rfl
  | cons cs css ih => simp [ih]

theorem writeAt_below (a : Arena) {off k : Nat} (bs : Bytes) (hk : k < off) :
    a.writeAt off bs k = a k := by
  rw [Arena.writeAt, if_neg (by omega)]

theorem outAll_congr {f g : Str → Bytes} {cs : List Chunk} (h : ∀ c ∈ cs, ∀ s ∈ c.strs, f s = g s) :
    outAll f cs = outAll g cs := by
  rw [outAll, outAll]
  congr 1
  refine List.map_congr_left fun c hc => ?_
  cases c with
  | put keep s => exact h _ hc s (List.mem_singleton_self s)
  | print keep parts =>
    rw [out, out]
    congr 1
    refine List.map_congr_left fun s hs => ?_
    rw [h _ hc s hs]
  | need n => rfl
  | fail => rfl

/-- A builder writes nothing below where it starts. -/
theorem run_below (rd : Arena → Str → Bytes) (base cap : Nat) (cs : List Chunk) (b : Arena)
    (off : Nat) {k : Nat} (hk : k < base + off) : (run rd base cap cs b off).2 k = b k := by
  induction cs generalizing b off with
  | nil => rfl
  | cons c cs ih =>
    cases c with
    | need n =>
      rw [run]
      split
      · exact ih b off hk
      · rfl
    | put keep s =>
      rw [run]
      split
      · rw [ih _ _ (by omega), writeAt_below _ _ hk]
      · rfl
    | print keep parts =>
      simp only [run]
      split
      · rw [ih _ _ (by omega), writeAt_below _ _ hk]
      · simp only
        split
        · rfl
        · exact writeAt_below _ _ hk
    | fail => rfl

/-- A builder that does not fail has written its pieces one after the other. The strings are not where
it writes. -/
theorem run_some {rd : Arena → Str → Bytes} {base cap : Nat} {cs : List Chunk} {b b' : Arena}
    {off n : Nat} {f : Str → Bytes}
    (hStays : ∀ c ∈ cs, ∀ s ∈ c.strs, ∀ b₁ : Arena, (∀ k < base, b₁ k = b k) → rd b₁ s = f s)
    (hLength : ∀ s, (f s).length = s.l) (hRun : run rd base cap cs b off = (some n, b')) :
    n = off + (outAll f cs).length ∧
      b'.readAt (base + off) (outAll f cs).length = outAll f cs := by
  induction cs generalizing b off with
  | nil =>
    obtain ⟨hn, -⟩ : some off = some n ∧ b = b' := Prod.mk.inj hRun
    exact ⟨(Option.some.inj hn).symm, rfl⟩
  | cons c cs ih =>
    have hRest : ∀ (text : Bytes) (b₁ : Arena), b₁ = b.writeAt (base + off) text →
        ∀ c ∈ cs, ∀ s ∈ c.strs, ∀ b₂ : Arena, (∀ k < base, b₂ k = b₁ k) → rd b₂ s = f s := by
      intro text b₁ hb₁ c hc s hs b₂ hb₂
      refine hStays c (List.mem_cons_of_mem _ hc) s hs b₂ fun k hk => ?_
      rw [hb₂ k hk, hb₁, writeAt_below _ _ (by omega)]
    have hJoin : ∀ (text junk : Bytes) (b₁ : Arena), b₁ = b.writeAt (base + off) (text ++ junk) →
        run rd base cap cs b₁ (off + text.length) = (some n, b') →
        n = off + (text ++ outAll f cs).length ∧
          b'.readAt (base + off) (text ++ outAll f cs).length = text ++ outAll f cs := by
      intro text junk b₁ hb₁ hTail
      obtain ⟨hn, hRead⟩ := ih (hRest _ b₁ hb₁) hTail
      refine ⟨by rw [List.length_append]; omega, ?_⟩
      have hFirst : b'.readAt (base + off) text.length = text := by
        have hSame : b'.readAt (base + off) text.length = b₁.readAt (base + off) text.length := by
          refine Arena.readAt_congr fun k hk => ?_
          have hBelow := run_below rd base cap cs b₁ (off + text.length)
            (k := base + off + k) (by omega)
          rwa [hTail] at hBelow
        rw [hSame, hb₁]
        have hSub := Arena.readAt_writeAt_sub b (base + off) (text ++ junk)
          (show 0 + text.length ≤ (text ++ junk).length by simp)
        simpa using hSub
      rw [List.length_append, Arena.readAt_add, hFirst, Nat.add_assoc, hRead]
    cases c with
    | need m =>
      rw [run] at hRun
      split at hRun
      · exact ih (fun c hc => hStays c (List.mem_cons_of_mem _ hc)) hRun
      · cases hRun
    | put keep s =>
      have hText : rd b s = f s := hStays _ List.mem_cons_self s (by simp [strs]) b fun _ _ => rfl
      rw [run, hText] at hRun
      split at hRun
      · refine hJoin (f s) [] _ (by rw [List.append_nil]) ?_
        rwa [hLength]
      · cases hRun
    | print keep parts =>
      have hText : (parts.map fun s => cstr (rd b s)) = parts.map fun s => cstr (f s) := by
        refine List.map_congr_left fun s hs => ?_
        rw [hStays _ List.mem_cons_self s hs b fun _ _ => rfl]
      simp only [run, hText] at hRun
      split at hRun
      · exact hJoin _ [0] _ rfl hRun
      · cases hRun
    | fail => cases hRun

/-- A builder goes on where it is. -/
theorem run_le {rd : Arena → Str → Bytes} {base cap : Nat} {cs : List Chunk} {b b' : Arena} {off n : Nat}
    (hRun : run rd base cap cs b off = (some n, b')) : off ≤ n := by
  induction cs generalizing b off with
  | nil =>
    obtain ⟨hn, -⟩ := Prod.mk.inj hRun
    exact Nat.le_of_eq (Option.some.inj hn)
  | cons c cs ih =>
    cases c with
    | need m =>
      rw [run] at hRun
      split at hRun
      · exact ih hRun
      · cases hRun
    | put keep s =>
      rw [run] at hRun
      split at hRun
      · exact Nat.le_trans (Nat.le_add_right _ _) (ih hRun)
      · cases hRun
    | print keep parts =>
      simp only [run] at hRun
      split at hRun
      · exact Nat.le_trans (Nat.le_add_right _ _) (ih hRun)
      · cases hRun
    | fail => cases hRun

theorem run_append_some {rd : Arena → Str → Bytes} {base cap : Nat} {cs ds : List Chunk} {b b' : Arena}
    {off n : Nat} (hRun : run rd base cap (cs ++ ds) b off = (some n, b')) :
    ∃ k b₁, run rd base cap cs b off = (some k, b₁) ∧ run rd base cap ds b₁ k = (some n, b') := by
  induction cs generalizing b off with
  | nil => exact ⟨off, b, rfl, hRun⟩
  | cons c cs ih =>
    rw [List.cons_append] at hRun
    cases c with
    | need m =>
      rw [run] at hRun ⊢
      split at hRun
      · rename_i hRoom
        rw [if_pos hRoom]
        exact ih hRun
      · cases hRun
    | put keep s =>
      rw [run] at hRun ⊢
      split at hRun
      · rename_i hRoom
        rw [if_pos hRoom]
        exact ih hRun
      · cases hRun
    | print keep parts =>
      simp only [run] at hRun ⊢
      split at hRun
      · rename_i hRoom
        rw [if_pos hRoom]
        exact ih hRun
      · cases hRun
    | fail => cases hRun

/-- Some of the pieces, in what all of them write. The strings of these are not where it is written. -/
theorem run_part {rd : Arena → Str → Bytes} {base cap : Nat} {pre mid post : List Chunk} {b b' : Arena}
    {n : Nat} {f : Str → Bytes}
    (hStays : ∀ c ∈ mid, ∀ s ∈ c.strs, ∀ b₁ : Arena, (∀ k < base, b₁ k = b k) → rd b₁ s = f s)
    (hLength : ∀ s, (f s).length = s.l)
    (hRun : run rd base cap (pre ++ (mid ++ post)) b 0 = (some n, b')) :
    ∃ y z, b'.readAt base n = y ++ (outAll f mid ++ z) := by
  obtain ⟨k, b₁, hPre, hRun⟩ := run_append_some hRun
  obtain ⟨k', b₂, hMid, hPost⟩ := run_append_some hRun
  have hBelow : ∀ j < base, b₁ j = b j := by
    intro j hj
    have hSame := run_below rd base cap pre b 0 (k := j) hj
    rwa [hPre] at hSame
  obtain ⟨rfl, hRead⟩ := run_some (f := f) (fun c hc s hs b₂ hb₂ => hStays c hc s hs b₂ fun j hj =>
    (hb₂ j hj).trans (hBelow j hj)) hLength hMid
  obtain ⟨rest, rfl⟩ := Nat.exists_eq_add_of_le (run_le hPost)
  have hKept : b'.readAt (base + k) (outAll f mid).length = outAll f mid := by
    refine (Arena.readAt_congr fun j hj => ?_).trans hRead
    have hSame := run_below rd base cap post b₂ (k + (outAll f mid).length) (k := base + k + j)
      (by omega)
    rwa [hPost] at hSame
  refine ⟨b'.readAt base k, b'.readAt (base + k + (outAll f mid).length) rest, ?_⟩
  rw [Nat.add_assoc, Arena.readAt_add, Arena.readAt_add, hKept]

end Chunk

/-! ## Growth -/

namespace Heap

/-- What is below the end of a heap has not changed. -/
structure Grows (hp hp' : Heap) : Prop where
  slot : hp'.slot = hp.slot
  le : hp.alen ≤ hp'.alen
  below : ∀ k < hp.alen, hp'.first k = hp.first k

instance : IsPreorder Heap Grows where
  refl _ := ⟨rfl, Nat.le_refl _, fun _ _ => rfl⟩
  trans _ _ _ h h' := ⟨h'.slot.trans h.slot, Nat.le_trans h.le h'.le, fun k hk =>
    (h'.below k (Nat.lt_of_lt_of_le hk h.le)).trans (h.below k hk)⟩

theorem Extends.to_grows {hp hp' : Heap} (h : hp.Extends hp') : hp.Grows hp' :=
  ⟨h.slot, h.grows, h.below⟩

/-- A string that is not on the heap, or below its end. -/
def Settled (hp : Heap) (s : Str) : Prop :=
  ∀ i, s.src = .scratch i → hp.slot = some i → s.off + s.l ≤ hp.alen

theorem settled_lit (hp : Heap) {s : Str} {b : Bytes} (h : s.src = .lit b) : hp.Settled s := by
  intro i hi
  rw [h] at hi
  contradiction

@[simp] theorem settled_null (hp : Heap) : hp.Settled Str.null := hp.settled_lit rfl

theorem settled_view {hp : Heap} {off l : Nat} (h : off + l ≤ hp.alen) :
    hp.Settled (hp.view off l) := by
  intro i hi hSlot
  simp only [view, hSlot]
  exact h

theorem read_view (hp : Heap) (m : Mem) (off l : Nat) :
    (hp.mem m).read (hp.view off l) = hp.first.readAt off l := by
  cases hSlot : hp.slot with
  | none => simp [view, mem, hSlot]
  | some i => simp [view, mem, hSlot, Mem.read, Mem.source]

theorem read_view_any {hp : Heap} {s : Str} (h : s = Str.null ∨ ∃ off l, s = hp.view off l)
    (m m' : Mem) : (hp.mem m).read s = (hp.mem m').read s := by
  rcases h with rfl | ⟨off, l, rfl⟩
  · rfl
  · rw [read_view, read_view]

theorem l_view (hp : Heap) (off l : Nat) : (hp.view off l).l = l := by
  simp only [view]
  split
  · rfl
  · simp [Str.lit]

theorem Grows.settled {hp hp' : Heap} {s : Str} (h : hp.Grows hp') (hs : hp.Settled s) :
    hp'.Settled s := by
  intro i hi hSlot
  have hOld := hs i hi (h.slot ▸ hSlot)
  have hLe := h.le
  omega

theorem read_own {hp : Heap} {s : Str} {i : Nat} (hSrc : s.src = .scratch i)
    (hSlot : hp.slot = some i) (m : Mem) : (hp.mem m).read s = hp.first.readAt s.off s.l := by
  simp [mem, hSlot, Mem.read, Mem.source, hSrc]

theorem read_foreign {hp : Heap} {s : Str} (h : ∀ i, s.src = .scratch i → hp.slot ≠ some i) (m : Mem) :
    (hp.mem m).read s = m.read s := by
  rw [mem]
  split
  · rename_i j hSlot
    cases hSrc : s.src with
    | lit b => simp [Mem.read, Mem.source, hSrc]
    | scratch i =>
      have hNe : i ≠ j := fun hIs => h i hSrc (hIs ▸ hSlot)
      simp [Mem.read, Mem.source, hSrc, Mem.put_other m _ hNe]
  · rfl

theorem Grows.read {hp hp' : Heap} {s : Str} (h : hp.Grows hp') (hs : hp.Settled s) (m : Mem) :
    (hp'.mem m).read s = (hp.mem m).read s := by
  by_cases hOwn : ∃ i, s.src = .scratch i ∧ hp.slot = some i
  · obtain ⟨i, hSrc, hSlot⟩ := hOwn
    have hEnd := hs i hSrc hSlot
    rw [read_own hSrc hSlot, read_own hSrc (h.slot.trans hSlot)]
    exact Arena.readAt_congr fun k hk => h.below _ (by omega)
  · have hForeign : ∀ i, s.src = .scratch i → hp.slot ≠ some i :=
      fun i hSrc hSlot => hOwn ⟨i, hSrc, hSlot⟩
    rw [read_foreign hForeign, read_foreign (h.slot ▸ hForeign)]

theorem keeps_reserve (len : Nat) (align_start : Bool) :
    Op.Keeps Grows (reserve len align_start) := by
  intro hp r hp' hRun
  rw [run_reserve] at hRun
  have hLe : hp.alen ≤ if align_start then alignedSize hp.alen else hp.alen := by
    split
    · exact le_alignedSize _
    · exact Nat.le_refl _
  generalize (if align_start then alignedSize hp.alen else hp.alen) = off at hRun hLe
  simp only at hRun
  split at hRun
  · obtain ⟨-, rfl⟩ := Prod.mk.inj (Option.some.inj hRun)
    exact Std.Refl.refl hp
  · obtain ⟨-, rfl⟩ := Prod.mk.inj (Option.some.inj hRun)
    refine ⟨rfl, ?_, fun _ _ => rfl⟩
    simp only
    omega

theorem keeps_alloc (len : Nat) : Op.Keeps Grows (alloc len) := keeps_reserve _ _

theorem keeps_checkpoint : Op.Keeps Grows checkpoint :=
  .bind .get fun _ => .bind (.assert _) fun _ =>
    .bind (.modify fun _ => ⟨rfl, Nat.le_refl _, fun _ _ => rfl⟩) fun _ => .pure _

/-- A copied string. -/
theorem append_ok {m : Mem} {src s : Str} {hp hp' : Heap}
    (hRun : (append m src).run hp = some (.ok s, hp')) :
    hp.Grows hp' ∧ hp'.Settled s ∧ (hp'.mem m).read s = (hp.mem m).read src ∧
      s = if src.l = 0 then Str.null else hp'.view hp.alen src.l := by
  by_cases hEmpty : src.l = 0
  · simp only [append, if_pos hEmpty, Op.pure_ok] at hRun ⊢
    obtain ⟨rfl, rfl⟩ := hRun
    have hNil : (hp.mem m).read src = [] := by
      rw [← List.length_eq_zero_iff, Mem.length_read, hEmpty]
    exact ⟨Std.Refl.refl hp, settled_null hp, hNil.symm, rfl⟩
  · simp only [append, if_neg hEmpty, Op.bind_ok, Op.modify_ok, Op.get_ok, Op.pure_ok] at hRun ⊢
    obtain ⟨off, hp₁, hReserve, _, hp₂, rfl, hp₃, _, ⟨rfl, rfl⟩, rfl, rfl⟩ := hRun
    obtain ⟨rfl, -, rfl⟩ := reserve_ok.mp hReserve
    simp only [Bool.false_eq_true, if_false]
    have hWritten := Arena.readAt_writeAt_same hp.first hp.alen
      ((({ hp with alen := hp.alen + src.l } : Heap).mem m).read src)
    rw [Mem.length_read] at hWritten
    refine ⟨⟨rfl, Nat.le_add_right _ _, fun k hk => Chunk.writeAt_below _ _ hk⟩,
      settled_view (Nat.le_refl _), ?_, trivial⟩
    rw [read_view]
    exact hWritten

theorem keeps_append (m : Mem) (src : Str) : Op.Keeps Grows (append m src) := by
  intro hp r hp' hRun
  cases r with
  | ok s => exact (append_ok hRun).1
  | error e =>
    by_cases hEmpty : src.l = 0
    · simp [append, if_pos hEmpty] at hRun
    · simp only [append, if_neg hEmpty, Op.run_bind, run_reserve] at hRun
      simp only [Bool.false_eq_true, if_false] at hRun
      split at hRun
      · simp only [Op.andThen_error] at hRun
        obtain ⟨-, rfl⟩ := Prod.mk.inj (Option.some.inj hRun)
        exact Std.Refl.refl hp
      · simp at hRun

theorem Grows.of_first {hp : Heap} {first : Arena} (h : ∀ k < hp.alen, first k = hp.first k) :
    hp.Grows { hp with first } :=
  ⟨rfl, Nat.le_refl _, h⟩

/-- What a builder is run on. -/
def buildRun (m : Mem) (cb : List Chunk) (hp : Heap) : Option Nat × Arena :=
  Chunk.run (fun b s => ({ hp with first := b }.mem m).read s) (alignedSize hp.alen)
    (hp.tsize - alignedSize hp.alen) cb hp.first 0

theorem buildRun_below (m : Mem) (cb : List Chunk) (hp : Heap) :
    ∀ k < hp.alen, (buildRun m cb hp).2 k = hp.first k := by
  intro k hk
  have hLe := le_alignedSize hp.alen
  exact Chunk.run_below _ _ _ _ _ _ (by omega)

theorem keeps_build (m : Mem) (cb : List Chunk) : Op.Keeps Grows (build m cb) := by
  intro hp r hp' hRun
  rw [build, Op.run_bind, Op.run_get, Op.andThen_ok] at hRun
  simp only [Op.run_bind, Op.run_require] at hRun
  split at hRun
  · have hFirst := Grows.of_first (buildRun_below m cb hp)
    have hTail : Op.Keeps Grows (do
        let blen ← Op.orElse (buildRun m cb hp).1 ()
        let bp ← reserve (alignedSize blen) true
        let hp ← Op.get
        return hp.view bp blen) :=
      .bind (.orElse _ _) fun _ => .bind (keeps_reserve _ _) fun _ => .bind .get fun _ => .pure _
    exact IsTrans.trans _ _ _ hFirst (hTail _ r hp' hRun)
  · obtain ⟨-, rfl⟩ := Prod.mk.inj (Option.some.inj hRun)
    exact Std.Refl.refl hp

/-- A built text. -/
theorem build_ok {m : Mem} {cb : List Chunk} {s : Str} {hp hp' : Heap}
    (hStays : ∀ c ∈ cb, ∀ s ∈ c.strs, hp.Settled s)
    (hRun : (build m cb).run hp = some (.ok s, hp')) :
    hp.Grows hp' ∧ hp'.Settled s ∧ (hp'.mem m).read s = Chunk.outAll (hp.mem m).read cb ∧
      s = hp'.view (alignedSize hp.alen) (Chunk.outAll (hp.mem m).read cb).length := by
  have hGrows := keeps_build m cb hp _ hp' hRun
  simp only [build, Op.bind_ok, Op.get_ok, Op.require_ok, Op.modify_ok, Op.orElse_ok,
    Op.pure_ok] at hRun
  obtain ⟨_, _, ⟨rfl, rfl⟩, _, _, ⟨-, rfl⟩, _, _, rfl, n, _, ⟨hText, rfl⟩, off, _, hReserve, _, _,
    ⟨rfl, rfl⟩, rfl, rfl⟩ := hRun
  obtain ⟨rfl, -, rfl⟩ := reserve_ok.mp hReserve
  have hPair : Chunk.run (fun b s => (({ hp with first := b } : Heap).mem m).read s)
      (alignedSize hp.alen) (hp.tsize - alignedSize hp.alen) cb hp.first 0 =
        (some n, (buildRun m cb hp).2) := Prod.ext hText rfl
  have hStable : ∀ c ∈ cb, ∀ s ∈ c.strs, ∀ b₁ : Arena,
      (∀ k < alignedSize hp.alen, b₁ k = hp.first k) →
        (({ hp with first := b₁ } : Heap).mem m).read s = (hp.mem m).read s := by
    intro c hc s hs b₁ hSame
    have hLe := le_alignedSize hp.alen
    exact (Grows.of_first fun k hk => hSame k (by omega)).read (hStays c hc s hs) m
  obtain ⟨hn, hRead⟩ := Chunk.run_some hStable (Mem.length_read _) hPair
  rw [Nat.zero_add] at hn
  rw [Nat.add_zero] at hRead
  subst hn
  have hLe := le_alignedSize (Chunk.outAll (hp.mem m).read cb).length
  refine ⟨hGrows, settled_view ?_, ?_, rfl⟩
  · simp only [if_true]
    omega
  · rw [read_view]
    exact hRead

/-- A part of a built text, whose strings are not where it is built. -/
theorem build_part {m : Mem} {pre mid post : List Chunk} {s : Str} {hp hp' : Heap}
    (hStays : ∀ c ∈ mid, ∀ s ∈ c.strs, hp.Settled s)
    (hRun : (build m (pre ++ (mid ++ post))).run hp = some (.ok s, hp')) :
    ∃ y z, (hp'.mem m).read s = y ++ (Chunk.outAll (hp.mem m).read mid ++ z) := by
  simp only [build, Op.bind_ok, Op.get_ok, Op.require_ok, Op.modify_ok, Op.orElse_ok,
    Op.pure_ok] at hRun
  obtain ⟨_, _, ⟨rfl, rfl⟩, _, _, ⟨-, rfl⟩, _, _, rfl, n, _, ⟨hText, rfl⟩, off, _, hReserve, _, _,
    ⟨rfl, rfl⟩, rfl, rfl⟩ := hRun
  obtain ⟨rfl, -, rfl⟩ := reserve_ok.mp hReserve
  have hPair : Chunk.run (fun b s => (({ hp with first := b } : Heap).mem m).read s)
      (alignedSize hp.alen) (hp.tsize - alignedSize hp.alen) (pre ++ (mid ++ post)) hp.first 0 =
        (some n, (buildRun m (pre ++ (mid ++ post)) hp).2) := Prod.ext hText rfl
  have hStable : ∀ c ∈ mid, ∀ s ∈ c.strs, ∀ b₁ : Arena,
      (∀ k < alignedSize hp.alen, b₁ k = hp.first k) →
        (({ hp with first := b₁ } : Heap).mem m).read s = (hp.mem m).read s := by
    intro c hc s hs b₁ hSame
    have hLe := le_alignedSize hp.alen
    exact (Grows.of_first fun k hk => hSame k (by omega)).read (hStays c hc s hs) m
  rw [read_view]
  exact Chunk.run_part hStable (Mem.length_read _) hPair

theorem build_view {m : Mem} {cb : List Chunk} {s : Str} {hp hp' : Heap}
    (hRun : (build m cb).run hp = some (.ok s, hp')) : ∃ off l, s = hp'.view off l := by
  simp only [build, Op.bind_ok, Op.get_ok, Op.require_ok, Op.modify_ok, Op.orElse_ok,
    Op.pure_ok] at hRun
  obtain ⟨_, _, -, _, _, -, _, _, -, n, _, -, off, _, -, _, _, ⟨rfl, rfl⟩, rfl, rfl⟩ := hRun
  exact ⟨off, n, rfl⟩

theorem keeps_sprintf (t : Bytes) : Op.Keeps Grows (sprintf t) :=
  .bind .get fun _ => .bind (.require _ _) fun _ =>
    .bind (.modify fun _ => .of_first fun _ hk => Chunk.writeAt_below _ _ hk) fun _ =>
      .bind (.require _ _) fun _ => .bind (keeps_reserve _ _) fun _ => .bind .get fun _ => .pure _

theorem keeps_appendAll (m : Mem) (srcs : List Str) : Op.Keeps Grows (appendAll m srcs) := by
  induction srcs with
  | nil => exact .pure _
  | cons s srcs ih => exact .bind (keeps_append m s) fun _ => .bind ih fun _ => .pure _

end Heap

/-! ## Slots -/

namespace Txi

/-- The scratch heap has grown. -/
def Grows (tp tp' : Txi) : Prop := tp.scratch.Grows tp'.scratch

instance : IsPreorder Txi Grows where
  refl tp := Std.Refl.refl tp.scratch
  trans _ _ _ h h' := IsTrans.trans (r := Heap.Grows) _ _ _ h h'

end Txi

theorem keeps_onScratch {α : Type} {x : HeapM α} (hx : Op.Keeps Heap.Grows x) (e : TmError) :
    Op.Keeps Txi.Grows (onScratch e x) := by
  refine .failWith ?_ e
  intro tp r tp' hRun
  simp only [Op.run, Op.zoom] at hRun
  split at hRun
  · contradiction
  · rename_i r₁ hp hPart
    obtain ⟨-, rfl⟩ := Prod.mk.inj (Option.some.inj hRun)
    exact hx _ _ _ hPart

end Microsippy
