import Microsippy.Scratch
import Microsippy.Tm.Drop

/-! # The dialog URIs of a server transaction

`usipy_sip_tm_uas_cache_request` keeps the From value as it came and the To value rebuilt without its
tag, and takes the URIs of both as parts of these.
-/

namespace Microsippy

set_option autoImplicit false

/-! ## Parts of strings -/

/-- A part of a string, or an empty one. -/
structure Str.Within (s x : Str) : Prop where
  src : s.src = x.src ∨ s.src = .lit []
  inside : s.l ≠ 0 → s.src = x.src ∧ x.off ≤ s.off ∧ s.off + s.l ≤ x.off + x.l

namespace Str

theorem Within.refl (x : Str) : x.Within x := ⟨Or.inl rfl, fun _ => ⟨rfl, Nat.le_refl _, Nat.le_refl _⟩⟩

theorem within_null (x : Str) : null.Within x := ⟨Or.inr rfl, fun h => absurd rfl h⟩

theorem Within.trans {s x y : Str} (h : s.Within x) (h' : x.Within y) : s.Within y := by
  constructor
  · rcases h.src with hs | hs
    · exact hs ▸ h'.src
    · exact Or.inr hs
  · intro hl
    obtain ⟨hSrc, hLow, hHigh⟩ := h.inside hl
    obtain ⟨hSrc', hLow', hHigh'⟩ := h'.inside (by omega)
    exact ⟨hSrc.trans hSrc', by omega, by omega⟩

theorem within_part (x : Str) {k l : Nat} (h : k + l ≤ x.l) : (⟨x.src, x.off + k, l⟩ : Str).Within x :=
  ⟨Or.inl rfl, fun _ => ⟨rfl, Nat.le_add_right _ _, by simp only; omega⟩⟩

theorem within_ltrmE (m : Mem) (s : Str) : (s.ltrmE m).Within s :=
  within_part s (show 0 + _ ≤ s.l by rw [Nat.zero_add]; exact Nat.sub_le _ _)

theorem trim_le (m : Mem) (s : Str) : ((m.read s).takeWhile isLws).length ≤ s.l := by
  rw [← Mem.length_read m s]
  exact (List.takeWhile_sublist _).length_le

theorem within_ltrmB (m : Mem) (s : Str) : (s.ltrmB m).Within s := by
  have hLe := trim_le m s
  exact within_part s (by omega)

theorem chr_lt {m : Mem} {x : Str} {dlm : UInt8} {r : Nat} (h : x.chr m dlm = some r) : r < x.l := by
  obtain ⟨hLt, -⟩ := List.findIdx?_eq_some_iff_getElem.mp h
  rwa [Mem.length_read] at hLt

theorem within_ite {s x : Str} (h : s.Within x) : (if s.l = 0 then null else s).Within x := by
  split
  · exact within_null x
  · exact h

theorem within_sub {x : Str} {k l : Nat} (h : k + l ≤ x.l) : (x.sub k l).Within x := by
  rw [sub]
  split
  · exact within_null x
  · exact within_part x h

theorem within_split {m : Mem} {x y z : Str} {dlm : UInt8} (h : x.split m dlm = some (y, z)) :
    y.Within x ∧ z.Within x := by
  simp only [split, Option.map_eq_some_iff, Prod.mk.injEq] at h
  obtain ⟨r, hAt, rfl, rfl⟩ := h
  have hLt := chr_lt hAt
  exact ⟨within_sub (by omega), within_sub (by omega)⟩

theorem within_splitElem {m : Mem} {x y z : Str} {dlm : UInt8} (h : x.splitElem m dlm = some (y, z)) :
    y.Within x ∧ z.Within x := by
  simp only [splitElem, Option.map_eq_some_iff, Prod.mk.injEq] at h
  obtain ⟨r, hAt, rfl, rfl⟩ := h
  have hLt := chr_lt hAt
  refine ⟨within_ite ((within_ltrmE m _).trans ?_), within_ite ((within_ltrmB m _).trans ?_)⟩
  · exact within_part x (show 0 + r ≤ x.l by omega)
  · exact within_part x (show r + 1 + (x.l - r - 1) ≤ x.l by omega)

/-- The elements of a list are parts of it. -/
theorem within_elems {m : Mem} {dlm : UInt8} {fuel : Nat} {x s : Str}
    (h : s ∈ elems (fun s => s.splitElem m dlm) fuel x) : s.Within x := by
  induction fuel generalizing x with
  | zero => cases h
  | succ fuel ih =>
    rw [elems] at h
    split at h
    · cases h
    · split at h
      · rename_i this rest hSplit
        obtain ⟨hThis, hRest⟩ := within_splitElem hSplit
        rcases List.mem_cons.mp h with rfl | hLater
        · exact hThis
        · exact (ih hLater).trans hRest
      · obtain rfl := List.mem_singleton.mp h
        exact .refl s

theorem within_tvPairTrimmed {m : Mem} {s : Str} :
    (tvPairTrimmed m s).token.Within s ∧ (tvPairTrimmed m s).value.Within s := by
  rw [tvPairTrimmed]
  split
  · rename_i token value hSplit
    obtain ⟨hToken, hValue⟩ := within_split hSplit
    exact ⟨(within_ltrmE m _).trans hToken, (within_ltrmB m _).trans hValue⟩
  · exact ⟨.refl s, within_null s⟩

theorem Within.lit {s x : Str} {b : Bytes} (h : s.Within x) (hx : x.src = .lit b) :
    ∃ b', s.src = .lit b' := by
  rcases h.src with hs | hs
  · exact ⟨b, hs.trans hx⟩
  · exact ⟨[], hs⟩

end Str

/-! ## Where the addr-spec stands -/

namespace NameAddr

variable {m : Mem} {hvp : Str} {nap : NameAddr}

/-- The ways a value is taken apart. -/
theorem parseParts_some (h : parseParts m hvp = some nap) :
    ∃ paramspace : Str, paramspace.Within hvp ∧
      nap.params = (elems (fun s => s.splitElem m (ch ';')) paramspace.l paramspace).map
        (tvPairTrimmed m) ∧
      ((∃ rest, hvp.splitElem m (ch ';') = some (nap.addr_spec, rest)) ∧ nap.display_name = Str.null ∨
        nap.addr_spec = hvp ∧ nap.display_name = Str.null ∨
        ∃ iup rest, hvp.splitElem m (ch '<') = some (nap.display_name, iup) ∧
          iup.splitElem m (ch '>') = some (nap.addr_spec, rest)) := by
  simp only [parseParts, Option.bind_eq_bind] at h
  split at h
  · split at h
    · rename_i addr iup hSplit
      obtain rfl := Option.some.inj h
      exact ⟨iup, (Str.within_splitElem hSplit).2, rfl, Or.inl ⟨⟨iup, hSplit⟩, rfl⟩⟩
    · obtain rfl := Option.some.inj h
      exact ⟨Str.null, Str.within_null hvp, rfl, Or.inr (Or.inl ⟨rfl, rfl⟩)⟩
  · rename_i display iup hOpen
    split at h
    · cases h
    · rename_i addr rest hClose
      have hRest := (Str.within_splitElem hClose).2.trans (Str.within_splitElem hOpen).2
      split at h
      · obtain rfl := Option.some.inj h
        exact ⟨Str.null, Str.within_null hvp, rfl, Or.inr (Or.inr ⟨iup, rest, hOpen, hClose⟩)⟩
      · split at h
        · cases h
        · obtain rfl := Option.some.inj h
          refine ⟨⟨rest.src, rest.off + 1, rest.l - 1⟩, Str.Within.trans ?_ hRest, rfl,
            Or.inr (Or.inr ⟨iup, rest, hOpen, hClose⟩)⟩
          exact Str.within_part rest (by omega)

theorem parseParts_within (h : parseParts m hvp = some nap) :
    nap.display_name.Within hvp ∧ nap.addr_spec.Within hvp ∧
      ∀ pp ∈ nap.params, pp.token.Within hvp ∧ pp.value.Within hvp := by
  obtain ⟨paramspace, hSpace, hParams, hShape⟩ := parseParts_some h
  have hPairs : ∀ pp ∈ nap.params, pp.token.Within hvp ∧ pp.value.Within hvp := by
    intro pp hpp
    rw [hParams] at hpp
    obtain ⟨s, hs, rfl⟩ := List.mem_map.mp hpp
    have hElem := (Str.within_elems hs).trans hSpace
    exact ⟨Str.within_tvPairTrimmed.1.trans hElem, Str.within_tvPairTrimmed.2.trans hElem⟩
  rcases hShape with ⟨⟨rest, hSplit⟩, hName⟩ | ⟨hAddr, hName⟩ | ⟨iup, rest, hOpen, hClose⟩
  · exact ⟨hName ▸ Str.within_null hvp, (Str.within_splitElem hSplit).1, hPairs⟩
  · exact ⟨hName ▸ Str.within_null hvp, hAddr ▸ .refl _, hPairs⟩
  · obtain ⟨hDisplay, hIup⟩ := Str.within_splitElem hOpen
    exact ⟨hDisplay, (Str.within_splitElem hClose).1.trans hIup, hPairs⟩

/-- Where the rebuilt value has its addr-spec: after `<`, before which the display name and a space
stand if there is one. -/
def specOffset (nap : NameAddr) : Nat :=
  if nap.display_name.l = 0 then 1 else nap.display_name.l + 2

/-- What is before a delimiter starts where the whole does, and is no longer than what it is taken
from. -/
theorem splitElem_left {m : Mem} {x y z : Str} {dlm : UInt8} (h : x.splitElem m dlm = some (y, z)) :
    ∃ r, r < x.l ∧ y.l ≤ r ∧ (y.l ≠ 0 → y.off = x.off) ∧ dlm ∉ m.read y ∧
      (z.l ≠ 0 → x.off + r + 1 ≤ z.off) := by
  simp only [Str.splitElem, Option.map_eq_some_iff, Prod.mk.injEq] at h
  obtain ⟨r, hAt, rfl, rfl⟩ := h
  have hLt := Str.chr_lt hAt
  refine ⟨r, hLt, ?_, ?_, ?_, ?_⟩
  · split
    · exact Nat.zero_le r
    · exact Nat.sub_le _ _
  · split
    · exact fun h => absurd rfl h
    · exact fun _ => rfl
  · obtain ⟨hIn, -, hBefore⟩ := List.findIdx?_eq_some_iff_getElem.mp hAt
    split
    · simp
    · intro hMem
      have hTrim : (Str.ltrmE m ⟨x.src, x.off, r⟩).l ≤ r := Nat.sub_le _ _
      have hWithin : 0 + (Str.ltrmE m ⟨x.src, x.off, r⟩).l ≤ x.l := by omega
      have hPart : m.read (Str.ltrmE m ⟨x.src, x.off, r⟩) =
          (m.read x).take (Str.ltrmE m ⟨x.src, x.off, r⟩).l := m.read_part x hWithin
      rw [hPart] at hMem
      obtain ⟨j, hj, hIs⟩ := List.mem_iff_getElem.mp hMem
      rw [List.length_take] at hj
      rw [List.getElem_take] at hIs
      have hNot := hBefore j (by omega)
      simp [hIs] at hNot
  · split
    · exact fun h => absurd rfl h
    · exact fun _ => Nat.le_add_right _ _

/-- The addr-spec stands no more than one place before where the rebuilt value has it; if it stands
no earlier, it has no `>`. -/
theorem addr_place (h : parseParts m hvp = some nap) (hSome : nap.addr_spec.l ≠ 0) :
    ∃ k, nap.addr_spec.off = hvp.off + k ∧
      (k + 1 = nap.specOffset ∨ nap.specOffset ≤ k ∧ ch '>' ∉ m.read nap.addr_spec) := by
  obtain ⟨-, -, -, hShape⟩ := parseParts_some h
  rcases hShape with ⟨⟨rest, hSplit⟩, hName⟩ | ⟨hAddr, hName⟩ | ⟨iup, rest, hOpen, hClose⟩
  · obtain ⟨r, -, -, hOff, -⟩ := splitElem_left hSplit
    exact ⟨0, hOff hSome, Or.inl (by rw [specOffset, hName]; rfl)⟩
  · exact ⟨0, by rw [hAddr, Nat.add_zero], Or.inl (by rw [specOffset, hName]; rfl)⟩
  · obtain ⟨r, -, hDisplay, -, -, hAfter⟩ := splitElem_left hOpen
    obtain ⟨r', hr', -, hOff, hNot, -⟩ := splitElem_left hClose
    have hStart := hAfter (by omega)
    have hSame := hOff hSome
    refine ⟨nap.addr_spec.off - hvp.off, by omega, ?_⟩
    rw [specOffset]
    split
    · exact Or.inr ⟨by omega, hNot⟩
    · by_cases hTight : nap.addr_spec.off - hvp.off + 1 = nap.display_name.l + 2
      · exact Or.inl hTight
      · exact Or.inr ⟨by omega, hNot⟩

/-! ## The rebuilt text -/

/-- Parameters as they are written. -/
def paramsText (m : Mem) (params : List TvPair) : Bytes :=
  (params.map fun pp => ch ';' :: (m.read pp.token ++
    if pp.value.l = 0 then [] else ch '=' :: m.read pp.value)).flatten

/-- A display name as it is written. -/
def displayText (m : Mem) (display_name : Str) : Bytes :=
  if display_name.l = 0 then [] else m.read display_name ++ [ch ' ']

theorem outAll_params (keep : Nat) (params : List TvPair) :
    Chunk.outAll m.read (params.map fun pp =>
      [Chunk.put keep (Str.lit (bytes ";")), .put keep pp.token] ++
        if pp.value.l = 0 then [] else [.put keep (Str.lit (bytes "=")), .put keep pp.value]).flatten =
      paramsText m params := by
  have hSemi : bytes ";" = [ch ';'] := by decide
  have hEq : bytes "=" = [ch '='] := by decide
  rw [Chunk.outAll_flatten, List.map_map, paramsText]
  congr 1
  refine List.map_congr_left fun pp _ => ?_
  by_cases hNone : pp.value.l = 0 <;> simp [Chunk.out, hNone, hSemi, hEq]

theorem outAll_build (keep : Nat) : Chunk.outAll m.read (nap.build keep) =
    displayText m nap.display_name ++
      ch '<' :: (m.read nap.addr_spec ++ ch '>' :: paramsText m nap.params) := by
  have hLt : bytes "<" = [ch '<'] := by decide
  have hGt : bytes ">" = [ch '>'] := by decide
  have hSp : bytes " " = [ch ' '] := by decide
  rw [build, Chunk.outAll_append, Chunk.outAll_append, outAll_params, displayText]
  by_cases hNone : nap.display_name.l = 0 <;> simp [Chunk.out, hNone, hLt, hGt, hSp]

/-- The strings a name-addr is built from. -/
theorem build_lit {keep : Nat} (hDisplay : ∃ b, nap.display_name.src = .lit b)
    (hAddr : ∃ b, nap.addr_spec.src = .lit b)
    (hParams : ∀ pp ∈ nap.params, (∃ b, pp.token.src = .lit b) ∧ ∃ b, pp.value.src = .lit b) :
    ∀ c ∈ nap.build keep, ∀ s ∈ c.strs, ∃ b, s.src = .lit b := by
  have hPut : ∀ s : Str, (∃ b, s.src = .lit b) → ∀ s' ∈ (Chunk.put keep s).strs, ∃ b, s'.src = .lit b := by
    intro s hs s' hs'
    obtain rfl := List.mem_singleton.mp hs'
    exact hs
  have hLit : ∀ b : Bytes, ∃ b', (Str.lit b).src = .lit b' := fun b => ⟨b, rfl⟩
  intro c hc
  simp only [build, List.mem_append, List.mem_flatten, List.mem_map] at hc
  rcases hc with (hName | hSpec) | ⟨_, ⟨pp, hpp, rfl⟩, hParam⟩
  · split at hName
    · rcases List.mem_cons.mp hName with rfl | hSp
      · exact hPut _ hDisplay
      · obtain rfl := List.mem_singleton.mp hSp
        exact hPut _ (hLit _)
    · cases hName
  · rcases List.mem_cons.mp hSpec with rfl | hSpec
    · exact hPut _ (hLit _)
    · rcases List.mem_cons.mp hSpec with rfl | hSpec
      · exact hPut _ hAddr
      · obtain rfl := List.mem_singleton.mp hSpec
        exact hPut _ (hLit _)
  · rcases List.mem_append.mp hParam with hToken | hValue
    · rcases List.mem_cons.mp hToken with rfl | hToken
      · exact hPut _ (hLit _)
      · obtain rfl := List.mem_singleton.mp hToken
        exact hPut _ (hParams pp hpp).1
    · split at hValue
      · cases hValue
      · rcases List.mem_cons.mp hValue with rfl | hValue
        · exact hPut _ (hLit _)
        · obtain rfl := List.mem_singleton.mp hValue
          exact hPut _ (hParams pp hpp).2

theorem length_displayText : (displayText m nap.display_name).length + 1 = nap.specOffset := by
  rw [displayText, specOffset]
  split
  · rfl
  · simp

end NameAddr

theorem take_shifted_iff {x : UInt8} {a r : Bytes} :
    (x :: (a ++ r)).take a.length = a ↔ ∀ c ∈ a, c = x := by
  induction a generalizing x with
  | nil => simp
  | cons y a ih =>
    rw [List.length_cons, List.take_succ_cons, List.cons_append, List.cons.injEq, ih]
    constructor
    · rintro ⟨rfl, hRest⟩ c hc
      rcases List.mem_cons.mp hc with hIs | hLater
      · exact hIs
      · exact hRest c hLater
    · intro hAll
      have hFirst := hAll y List.mem_cons_self
      exact ⟨hFirst.symm, fun c hc => (hAll c (List.mem_cons_of_mem _ hc)).trans hFirst.symm⟩

/-- Where a text in angle brackets may be found again. -/
theorem found_again_iff {p a r : Bytes} {d k : Nat} (hd : p.length + 1 = d)
    (hk : k + 1 = d ∨ d ≤ k ∧ ch '>' ∉ a) :
    (((p ++ ch '<' :: (a ++ ch '>' :: r)).drop k).take a.length = a) ↔
      k = d ∨ (k + 1 = d ∧ ∀ c ∈ a, c = ch '<') ∨
        ∃ g, k = d + a.length + 1 + g ∧ (r.drop g).take a.length = a := by
  rcases hk with hTight | ⟨hLow, hNot⟩
  · have hDrop : (p ++ ch '<' :: (a ++ ch '>' :: r)).drop k = ch '<' :: (a ++ ch '>' :: r) := by
      rw [List.drop_append_of_le_length (by omega), List.drop_of_length_le (by omega),
        List.nil_append]
    rw [hDrop, take_shifted_iff]
    constructor
    · exact fun hAll => Or.inr (Or.inl ⟨hTight, hAll⟩)
    · rintro (hIs | ⟨-, hAll⟩ | ⟨g, hg, -⟩)
      · omega
      · exact hAll
      · omega
  · obtain ⟨j, rfl⟩ := Nat.exists_eq_add_of_le hLow
    have hDrop : (p ++ ch '<' :: (a ++ ch '>' :: r)).drop (d + j) = (a ++ ch '>' :: r).drop j := by
      have hSum : d + j = (p ++ [ch '<']).length + j := by simp [hd]
      have hSplit : p ++ ch '<' :: (a ++ ch '>' :: r) = (p ++ [ch '<']) ++ (a ++ ch '>' :: r) := by
        simp
      rw [hSum, hSplit, List.drop_length_add_append]
    rw [hDrop]
    rcases Nat.lt_or_ge a.length j with hPast | hWithin
    · obtain ⟨g, rfl⟩ := Nat.exists_eq_add_of_lt hPast
      have hRest : (a ++ ch '>' :: r).drop (a.length + g + 1) = r.drop g := by
        rw [Nat.add_assoc, List.drop_length_add_append, List.drop_succ_cons]
      rw [hRest]
      constructor
      · exact fun hSame => Or.inr (Or.inr ⟨g, by omega, hSame⟩)
      · rintro (hIs | ⟨hIs, -⟩ | ⟨g', hg', hSame⟩)
        · omega
        · omega
        · obtain rfl : g' = g := by omega
          exact hSame
    · by_cases hZero : j = 0
      · subst hZero
        simp
      · constructor
        · intro hSame
          have hMem : ch '>' ∈ ((a ++ ch '>' :: r).drop j).take a.length := by
            rw [List.mem_iff_getElem?]
            refine ⟨a.length - j, ?_⟩
            have hAt : j + (a.length - j) = a.length := by omega
            rw [List.getElem?_take, if_pos (by omega), List.getElem?_drop, hAt]
            simp
          exact absurd (hSame ▸ hMem) hNot
        · rintro (hIs | ⟨hIs, -⟩ | ⟨g, hg, -⟩) <;> omega

/-! ## Keeping a request -/

/-- A header as a message has it: a part of the wire with the name-addr that parsing yields. -/
structure MsgHdr.WireNameaddr (h : MsgHdr) (nap : NameAddr) : Prop where
  wire : ∃ b, h.value.src = .lit b
  parsed : h.parsed = some (.nameaddr nap)
  parts : NameAddr.parseParts (fun _ => .zero) h.value = some nap

/-- The parameters of a name-addr but its tag. -/
def untagged (params : List TvPair) : List TvPair :=
  params.filter fun pp =>
    !(pp.token.l == (bytes "tag").length && Mem.read (fun _ => .zero) pp.token == bytes "tag")

/-- The To value a server transaction keeps. -/
def toText (nap : NameAddr) : Bytes :=
  NameAddr.displayText (fun _ => .zero) nap.display_name ++
    ch '<' :: (Mem.read (fun _ => .zero) nap.addr_spec ++
      ch '>' :: NameAddr.paramsText (fun _ => .zero) (untagged nap.params))

/-- Growth of the scratch heap that leaves the cached From and To and their URIs. -/
structure UrisStay (tp tp' : Txi) : Prop where
  grows : tp.Grows tp'
  from_ : tp'.cache.uas.from_ = tp.cache.uas.from_
  to_ : tp'.cache.uas.to_ = tp.cache.uas.to_
  from_uri : tp'.cache.uas.from_uri = tp.cache.uas.from_uri
  to_uri : tp'.cache.uas.to_uri = tp.cache.uas.to_uri

instance : IsPreorder Txi UrisStay where
  refl tp := ⟨Std.Refl.refl tp, rfl, rfl, rfl, rfl⟩
  trans _ _ _ h h' := ⟨IsTrans.trans _ _ _ h.grows h'.grows, h'.from_.trans h.from_,
    h'.to_.trans h.to_, h'.from_uri.trans h.from_uri, h'.to_uri.trans h.to_uri⟩

theorem urisStay_onScratch {α : Type} {x : HeapM α} (hx : Op.Keeps Heap.Grows x) (e : TmError) :
    Op.Keeps UrisStay (onScratch e x) := by
  intro tp r tp' hRun
  have hGrows := keeps_onScratch hx e tp r tp' hRun
  have hCache : tp'.cache = tp.cache := by
    have hKeep : Op.Keeps (fun tp tp' : Txi => tp'.cache = tp.cache) (onScratch e x) := by
      refine .failWith ?_ e
      exact Op.Keeps.zoom (R := fun tp tp' : Txi => tp'.cache = tp.cache) fun _ _ => rfl
    exact hKeep tp r tp' hRun
  exact ⟨hGrows, by rw [hCache], by rw [hCache], by rw [hCache], by rw [hCache]⟩

theorem urisStay_uasCopyHdrs (m : Mem) (srcp : List MsgHdr) :
    Op.Keeps UrisStay (uasCopyHdrs m srcp) := by
  cases srcp with
  | nil => exact .pure _
  | cons h srcp =>
    exact .bind (urisStay_onScratch (Heap.keeps_alloc _) _) fun _ =>
      urisStay_onScratch (Heap.keeps_appendAll m _) _

/-- The From and To values as a server transaction keeps them, with their URIs taken from them. -/
structure UrisKept (f t : MsgHdr) (nf nt : NameAddr) (tp : Txi) : Prop where
  settledFrom : tp.scratch.Settled tp.cache.uas.from_
  settledTo : tp.scratch.Settled tp.cache.uas.to_
  ownTo : ∀ i, tp.cache.uas.to_.src = .scratch i → tp.scratch.slot = some i
  readFrom : ∀ m, (tp.scratch.mem m).read tp.cache.uas.from_ = Mem.read (fun _ => .zero) f.value
  readTo : ∀ m, (tp.scratch.mem m).read tp.cache.uas.to_ = toText nt
  from_uri : uasRebaseSubstr f.value tp.cache.uas.from_ nf.addr_spec = some tp.cache.uas.from_uri
  to_uri : uasRebaseSubstr t.value tp.cache.uas.to_ nt.addr_spec = some tp.cache.uas.to_uri

theorem UrisKept.stay {f t : MsgHdr} {nf nt : NameAddr} {tp tp' : Txi} (h : UrisKept f t nf nt tp)
    (hStay : UrisStay tp tp') : UrisKept f t nf nt tp' where
  settledFrom := hStay.from_ ▸ hStay.grows.settled h.settledFrom
  settledTo := hStay.to_ ▸ hStay.grows.settled h.settledTo
  ownTo i hSrc := hStay.grows.slot.trans (h.ownTo i (hStay.to_ ▸ hSrc))
  readFrom m := by rw [hStay.from_, hStay.grows.read h.settledFrom, h.readFrom]
  readTo m := by rw [hStay.to_, hStay.grows.read h.settledTo, h.readTo]
  from_uri := by rw [hStay.from_, hStay.from_uri, h.from_uri]
  to_uri := by rw [hStay.to_, hStay.to_uri, h.to_uri]

/-- What `usipy_sip_tm_uas_copy_nameaddr_without_param` makes of a To value. -/
theorem uasCopyNameaddrWithoutParam_ok {m : Mem} {t : MsgHdr} {nap : NameAddr} {s : Str}
    {tp tp' : Txi} (hTo : t.WireNameaddr nap)
    (hRun : (uasCopyNameaddrWithoutParam m nap (bytes "tag")).run tp = some (.ok s, tp')) :
    tp.Grows tp' ∧ tp'.cache = tp.cache ∧ tp'.scratch.Settled s ∧
      (∀ i, s.src = .scratch i → tp'.scratch.slot = some i) ∧
        ∀ m', (tp'.scratch.mem m').read s = toText nap := by
  obtain ⟨b, hWire⟩ := hTo.wire
  obtain ⟨hDisplay, hAddr, hParams⟩ := NameAddr.parseParts_within hTo.parts
  rw [uasCopyNameaddrWithoutParam] at hRun
  obtain ⟨_, _, hGet, hRun⟩ := Op.bind_ok.mp hRun
  obtain ⟨rfl, rfl⟩ := Op.get_ok.mp hGet
  obtain ⟨s', tp₁, hBuild, hRun⟩ := Op.bind_ok.mp hRun
  obtain ⟨_, tp₂, hAlloc, hRun⟩ := Op.bind_ok.mp hRun
  obtain ⟨rfl, rfl⟩ := Op.pure_ok.mp hRun
  obtain ⟨hp₁, hText, rfl⟩ := onScratch_ok.mp hBuild
  obtain ⟨hp₂, hRoom, rfl⟩ := onScratch_ok.mp hAlloc
  have hKept : (nap.params.filter fun pp => !(pp.token.l == (bytes "tag").length &&
      (tp.scratch.mem m).read pp.token == bytes "tag")) = untagged nap.params := by
    refine List.filter_congr fun pp hpp => ?_
    obtain ⟨b', hLit⟩ := (hParams pp hpp).1.lit hWire
    rw [Mem.read_of_lit hLit (tp.scratch.mem m) fun _ => .zero]
  simp only [hKept] at hText
  have hLits : ∀ c ∈ NameAddr.build 0 { nap with params := untagged nap.params },
      ∀ s ∈ c.strs, ∃ b', s.src = .lit b' := by
    refine NameAddr.build_lit (hDisplay.lit hWire) (hAddr.lit hWire) fun pp hpp => ?_
    have hIn := (List.mem_filter.mp hpp).1
    exact ⟨(hParams pp hIn).1.lit hWire, (hParams pp hIn).2.lit hWire⟩
  have hStays : ∀ c ∈ NameAddr.build 0 { nap with params := untagged nap.params },
      ∀ s ∈ c.strs, tp.scratch.Settled s := by
    intro c hc s hs
    obtain ⟨b', hLit⟩ := hLits c hc s hs
    exact Heap.settled_lit _ hLit
  obtain ⟨hGrows, hSettled, hRead, hView⟩ := Heap.build_ok hStays hText
  have hMore := Heap.keeps_alloc _ _ _ _ hRoom
  have hOwn : ∀ i, s'.src = .scratch i → hp₂.slot = some i := by
    intro i hSrc
    rw [hView, Heap.view] at hSrc
    cases hSlot : hp₁.slot with
    | none =>
      rw [hSlot] at hSrc
      cases hSrc
    | some j =>
      rw [hSlot] at hSrc
      obtain rfl := Src.scratch.inj hSrc
      exact hMore.slot.trans hSlot
  refine ⟨IsTrans.trans (r := Heap.Grows) _ _ _ hGrows hMore, rfl, hMore.settled hSettled, hOwn,
    fun m' => ?_⟩
  have hSame : Chunk.outAll (tp.scratch.mem m).read
      (NameAddr.build 0 { nap with params := untagged nap.params }) = toText nap := by
    rw [Chunk.outAll_congr (g := Mem.read fun _ => .zero), NameAddr.outAll_build]
    · rfl
    · intro c hc s hs
      obtain ⟨b', hLit⟩ := hLits c hc s hs
      exact Mem.read_of_lit hLit _ _
  calc (hp₂.mem m').read s' = (hp₁.mem m').read s' := hMore.read hSettled m'
    _ = (hp₁.mem m).read s' := Heap.read_view_any (Or.inr ⟨_, _, hView⟩) _ _
    _ = toText nap := hRead.trans hSame

theorem uasCacheRequest_uris {m : Mem} {msg : Msg} {ruri : Str} {tid : Tid} {f t : MsgHdr}
    {nf nt : NameAddr} {tp tp' : Txi} (hTop : msg.top .FROM = some f) (hFrom : f.WireNameaddr nf)
    (hTopTo : msg.top .TO = some t) (hTo : t.WireNameaddr nt)
    (hRun : (uasCacheRequest m msg ruri tid).run tp = some (.ok (), tp')) :
    UrisKept f t nf nt tp' := by
  rw [uasCacheRequest] at hRun
  obtain ⟨_, _, -, hRun⟩ := Op.bind_ok.mp hRun
  obtain ⟨_, _, -, hRun⟩ := Op.bind_ok.mp hRun
  obtain ⟨f', _, hf', hRun⟩ := Op.bind_ok.mp hRun
  obtain ⟨nf', _, hnf', hRun⟩ := Op.bind_ok.mp hRun
  obtain ⟨t', _, ht', hRun⟩ := Op.bind_ok.mp hRun
  obtain ⟨nt', _, hnt', hRun⟩ := Op.bind_ok.mp hRun
  obtain ⟨_, _, -, hRun⟩ := Op.bind_ok.mp hRun
  obtain ⟨via, _, -, hRun⟩ := Op.bind_ok.mp hRun
  obtain ⟨from_, tp₁, hCopyFrom, hRun⟩ := Op.bind_ok.mp hRun
  obtain ⟨_, tp₂, hSetFrom, hRun⟩ := Op.bind_ok.mp hRun
  obtain ⟨to_, tp₃, hCopyTo, hRun⟩ := Op.bind_ok.mp hRun
  obtain ⟨_, tp₄, hSetTo, hRun⟩ := Op.bind_ok.mp hRun
  obtain ⟨request_uri, tp₅, hCopyUri, hRun⟩ := Op.bind_ok.mp hRun
  obtain ⟨_, tp₆, hSetUri, hRun⟩ := Op.bind_ok.mp hRun
  obtain ⟨from_uri, tp₇, hFromUri, hRun⟩ := Op.bind_ok.mp hRun
  obtain ⟨_, tp₈, hSetFromUri, hRun⟩ := Op.bind_ok.mp hRun
  obtain ⟨to_uri, tp₉, hToUri, hRun⟩ := Op.bind_ok.mp hRun
  obtain ⟨_, tp₁₀, hSetToUri, hRun⟩ := Op.bind_ok.mp hRun
  have hRest : UrisStay tp₁₀ tp' := by
    refine Op.Keeps.bind (urisStay_uasCopyHdrs m _) (fun _ => ?_) _ _ _ hRun
    refine .bind (.modify fun _ => ⟨Std.Refl.refl _, rfl, rfl, rfl, rfl⟩) fun _ => ?_
    refine .bind (.orElse _ _) fun _ => ?_
    refine .bind (.modify fun _ => ⟨Std.Refl.refl _, rfl, rfl, rfl, rfl⟩) fun _ => ?_
    refine .bind (urisStay_uasCopyHdrs m _) fun _ => ?_
    refine .bind (.modify fun _ => ⟨Std.Refl.refl _, rfl, rfl, rfl, rfl⟩) fun _ => ?_
    refine .bind ?_ fun _ => ?_
    · split
      · exact urisStay_onScratch (Heap.keeps_append m _) _
      · exact .pure _
    refine .bind (.modify fun _ => ⟨Std.Refl.refl _, rfl, rfl, rfl, rfl⟩) fun _ => ?_
    refine .bind (.orElse _ _) fun _ => ?_
    exact .modify fun _ => ⟨Std.Refl.refl _, rfl, rfl, rfl, rfl⟩
  have hf : f' = f := Option.some.inj ((Op.demand_ok.mp hf').1.symm.trans hTop)
  have ht : t' = t := Option.some.inj ((Op.demand_ok.mp ht').1.symm.trans hTopTo)
  subst hf ht
  have hnf : nf' = nf := by
    have hIs := (Op.demand_ok.mp hnf').1
    rw [Msg.nameaddrOf, hFrom.parsed] at hIs
    exact (Option.some.inj hIs).symm
  have hnt : nt' = nt := by
    have hIs := (Op.demand_ok.mp hnt').1
    rw [Msg.nameaddrOf, hTo.parsed] at hIs
    exact (Option.some.inj hIs).symm
  subst hnf hnt
  obtain ⟨b, hWire⟩ := hFrom.wire
  obtain ⟨hp₁, hAppend, rfl⟩ := onScratch_ok.mp hCopyFrom
  obtain ⟨-, hSettled, hRead, hView⟩ := Heap.append_ok hAppend
  obtain rfl := Op.modify_ok.mp hSetFrom
  obtain ⟨hGrowsTo, hCacheTo, hSettledTo, hOwnTo, hReadTo⟩ := uasCopyNameaddrWithoutParam_ok hTo hCopyTo
  obtain rfl := Op.modify_ok.mp hSetTo
  have hStay := urisStay_onScratch (Heap.keeps_append m ruri) _ _ _ _ hCopyUri
  obtain rfl := Op.modify_ok.mp hSetUri
  obtain ⟨hFromIs, rfl⟩ := Op.orElse_ok.mp hFromUri
  obtain rfl := Op.modify_ok.mp hSetFromUri
  obtain ⟨hToIs, rfl⟩ := Op.orElse_ok.mp hToUri
  obtain rfl := Op.modify_ok.mp hSetToUri
  have hFromEq : tp₅.cache.uas.from_ = from_ := by rw [hStay.from_, hCacheTo]
  have hToEq : tp₅.cache.uas.to_ = to_ := hStay.to_
  refine UrisKept.stay ⟨?_, ?_, ?_, ?_, ?_, ?_, ?_⟩ hRest
  · simp only [hFromEq]
    exact hStay.grows.settled (hGrowsTo.settled hSettled)
  · simp only [hToEq]
    exact hStay.grows.settled hSettledTo
  · intro i hSrc
    simp only [hToEq] at hSrc
    exact hStay.grows.slot.trans (hOwnTo i hSrc)
  · intro m'
    simp only [hFromEq]
    have hOwn : from_ = Str.null ∨ ∃ off l, from_ = hp₁.view off l := by
      rw [hView]
      split
      · exact Or.inl rfl
      · exact Or.inr ⟨_, _, rfl⟩
    rw [hStay.grows.read (hGrowsTo.settled hSettled), hGrowsTo.read hSettled]
    exact (Heap.read_view_any hOwn m' m).trans (hRead.trans (Mem.read_of_lit hWire _ _))
  · intro m'
    simp only [hToEq]
    rw [hStay.grows.read hSettledTo, hReadTo]
  · rw [← hFromIs, hFromEq]
  · rw [← hToIs, hToEq]

theorem urisStay_callIdPolicy (policy : IdPolicy) (inp : IdPolicyIn) :
    Op.Keeps UrisStay (callIdPolicy policy inp) := by
  intro tp r tp' hRun
  simp only [callIdPolicy, Op.run_bind, Op.run_get, Op.andThen_ok, Op.run_modify] at hRun
  have hAnswer : UrisStay tp { tp with
      scratch := (policy.cb tp.id_calls inp tp.scratch).2, id_calls := tp.id_calls + 1 } :=
    ⟨(policy.extends_heap _ _ _).to_grows, rfl, rfl, rfl, rfl⟩
  exact IsTrans.trans _ _ _ hAnswer (Op.Keeps.orElse _ _ _ _ _ hRun)

theorem urisStay_copyTargetAddr (m : Mem) (srcp : Addr) : Op.Keeps UrisStay (copyTargetAddr m srcp) := by
  refine .bind ?_ fun _ => .pure _
  split
  · exact .pure _
  · exact urisStay_onScratch (Heap.keeps_append m _) _

theorem urisStay_uasFormatLocalContactUri (m : Mem) (localp : Addr) :
    Op.Keeps UrisStay (uasFormatLocalContactUri m localp) :=
  .bind (.bind .get fun _ => .pure _) fun _ => .bind (.orElse _ _) fun _ =>
    urisStay_onScratch (Heap.keeps_sprintf _) _

theorem urisStay_uasPrepareLocalTag (tm : Tm) (i : Nat) (cseq : UInt32) (method : Method) :
    Op.Keeps UrisStay (uasPrepareLocalTag tm i cseq method) := by
  refine .bind ?_ fun _ => .modify fun _ => ⟨Std.Refl.refl _, rfl, rfl, rfl, rfl⟩
  split
  · exact urisStay_onScratch (Heap.keeps_sprintf _) _
  · exact .bind (urisStay_callIdPolicy _ _) fun _ => .bind (.require _ _) fun _ => .pure _

theorem fillUasTr_uris {tpp : NewUasTrParams} {method : Method} {ruri : Str} {tid : Tid} {i : Nat}
    {tm : Tm} {f t : MsgHdr} {nf nt : NameAddr} {tp tp' : Txi}
    (hTop : tpp.request.top .FROM = some f) (hFrom : f.WireNameaddr nf)
    (hTopTo : tpp.request.top .TO = some t) (hTo : t.WireNameaddr nt)
    (hRun : (fillUasTr tpp method ruri tid i tm).run tp = some (.ok (), tp')) :
    UrisKept f t nf nt tp' := by
  rw [fillUasTr] at hRun
  obtain ⟨_, _, -, hRun⟩ := Op.bind_ok.mp hRun
  obtain ⟨_, _, -, hRun⟩ := Op.bind_ok.mp hRun
  obtain ⟨_, _, -, hRun⟩ := Op.bind_ok.mp hRun
  obtain ⟨_, _, -, hRun⟩ := Op.bind_ok.mp hRun
  obtain ⟨_, tp₁, hCache, hRun⟩ := Op.bind_ok.mp hRun
  refine (uasCacheRequest_uris hTop hFrom hTopTo hTo hCache).stay ?_
  refine Op.Keeps.bind (urisStay_uasFormatLocalContactUri _ _) (fun _ => ?_) _ _ _ hRun
  refine .bind (.modify fun _ => ⟨Std.Refl.refl _, rfl, rfl, rfl, rfl⟩) fun _ => ?_
  refine .bind (urisStay_uasPrepareLocalTag tm i _ _) fun _ => ?_
  refine .bind (urisStay_copyTargetAddr _ _) fun _ => ?_
  refine .bind (.modify fun _ => ⟨Std.Refl.refl _, rfl, rfl, rfl, rfl⟩) fun _ => ?_
  refine .bind (urisStay_copyTargetAddr _ _) fun _ => ?_
  refine .bind (.modify fun _ => ⟨Std.Refl.refl _, rfl, rfl, rfl, rfl⟩) fun _ => ?_
  refine .bind (urisStay_onScratch Heap.keeps_checkpoint _) fun _ => ?_
  exact .modify fun _ => ⟨Std.Refl.refl _, rfl, rfl, rfl, rfl⟩

theorem grows_modify {f : Txi → Txi} (h : ∀ tp, (f tp).scratch = tp.scratch) :
    Op.Keeps Txi.Grows (Op.modify f : TxM Unit) := by
  refine .modify fun tp => ?_
  rw [Txi.Grows, h]
  exact Std.Refl.refl _

theorem grows_of_urisStay {α : Type} {x : TxM α} (hx : Op.Keeps UrisStay x) : Op.Keeps Txi.Grows x :=
  hx.mono fun _ _ h => h.grows

theorem grows_uasCopyNameaddrWithoutParam (m : Mem) (nap : NameAddr) (skip : Bytes) :
    Op.Keeps Txi.Grows (uasCopyNameaddrWithoutParam m nap skip) :=
  .bind .get fun _ => .bind (keeps_onScratch (Heap.keeps_build m _) _) fun _ =>
    .bind (keeps_onScratch (Heap.keeps_alloc _) _) fun _ => .pure _

theorem grows_uasCacheRequest (m : Mem) (msg : Msg) (ruri : Str) (tid : Tid) :
    Op.Keeps Txi.Grows (uasCacheRequest m msg ruri tid) := by
  have hSet : ∀ f : UasCache → UasCache, Op.Keeps Txi.Grows (modUasCache f) :=
    fun f => grows_modify fun _ => rfl
  refine .bind (.require _ _) fun _ => .bind (.assert _) fun _ => .bind (.demand _) fun _ =>
    .bind (.demand _) fun _ => .bind (.demand _) fun _ => .bind (.demand _) fun _ =>
    .bind (.demand _) fun _ => .bind (.orElse _ _) fun _ => ?_
  refine .bind (keeps_onScratch (Heap.keeps_append m _) _) fun _ => .bind (hSet _) fun _ => ?_
  refine .bind (grows_uasCopyNameaddrWithoutParam m _ _) fun _ => .bind (hSet _) fun _ => ?_
  refine .bind (keeps_onScratch (Heap.keeps_append m _) _) fun _ => .bind (hSet _) fun _ => ?_
  refine .bind (.orElse _ _) fun _ => .bind (hSet _) fun _ => ?_
  refine .bind (.orElse _ _) fun _ => .bind (hSet _) fun _ => ?_
  refine .bind (grows_of_urisStay (urisStay_uasCopyHdrs m _)) fun _ => .bind (hSet _) fun _ => ?_
  refine .bind (.orElse _ _) fun _ => .bind (grows_modify fun _ => rfl) fun _ => ?_
  refine .bind (grows_of_urisStay (urisStay_uasCopyHdrs m _)) fun _ => .bind (hSet _) fun _ => ?_
  refine .bind ?_ fun _ => .bind (hSet _) fun _ => .bind (.orElse _ _) fun _ =>
    grows_modify fun _ => rfl
  split
  · exact keeps_onScratch (Heap.keeps_append m _) _
  · exact .pure _

theorem grows_fillUasTr (tpp : NewUasTrParams) (method : Method) (ruri : Str) (tid : Tid) (i : Nat)
    (tm : Tm) : Op.Keeps Txi.Grows (fillUasTr tpp method ruri tid i tm) := by
  refine .bind (grows_modify fun _ => rfl) fun _ => .bind (grows_modify fun _ => rfl) fun _ => ?_
  refine .bind (keeps_onScratch (Heap.keeps_append _ _) _) fun _ =>
    .bind (grows_modify fun _ => rfl) fun _ => ?_
  refine .bind (grows_uasCacheRequest _ _ _ _) fun _ => ?_
  refine .bind (grows_of_urisStay (urisStay_uasFormatLocalContactUri _ _)) fun _ =>
    .bind (grows_modify fun _ => rfl) fun _ => ?_
  refine .bind (grows_of_urisStay (urisStay_uasPrepareLocalTag tm i _ _)) fun _ => ?_
  refine .bind (grows_of_urisStay (urisStay_copyTargetAddr _ _)) fun _ =>
    .bind (grows_modify fun _ => rfl) fun _ => ?_
  refine .bind (grows_of_urisStay (urisStay_copyTargetAddr _ _)) fun _ =>
    .bind (grows_modify fun _ => rfl) fun _ => ?_
  exact .bind (keeps_onScratch Heap.keeps_checkpoint _) fun _ => grows_modify fun _ => rfl

/-! ## The constructor -/

/-- A cached URI that reads as the addr-spec it is taken from, inside the cached value. -/
def UriKept (m : Mem) (uri base spec : Str) : Prop :=
  m.read uri = m.read spec ∧
    (uri.l ≠ 0 → uri.src = base.src ∧ base.off ≤ uri.off ∧ uri.off + uri.l ≤ base.off + base.l)

theorem uriKept_iff {m : Mem} {srcBase base spec uri : Str}
    (hRebase : uasRebaseSubstr srcBase base spec = some uri) :
    UriKept m uri base spec ↔
      spec.l = 0 ∨ ((m.read base).drop (spec.off - srcBase.off)).take spec.l = m.read spec := by
  rw [uasRebaseSubstr] at hRebase
  split at hRebase
  · rename_i hEmpty
    obtain rfl := Option.some.inj hRebase
    have hNil : m.read spec = [] := by rw [← List.length_eq_zero_iff, Mem.length_read, hEmpty]
    exact ⟨fun _ => Or.inl hEmpty, fun _ => ⟨hNil.symm, fun h => absurd rfl h⟩⟩
  · rename_i hSome
    split at hRebase
    · cases hRebase
    · simp only at hRebase
      split at hRebase
      · cases hRebase
      · obtain rfl := Option.some.inj hRebase
        constructor
        · rintro ⟨hRead, hInside⟩
          obtain ⟨-, -, hEnd⟩ := hInside hSome
          refine Or.inr ?_
          rw [← m.read_part base (by simp only at hEnd; omega)]
          exact hRead
        · rintro (hEmpty | hSame)
          · exact absurd hEmpty hSome
          · have hLength := congrArg List.length hSame
            rw [List.length_take, List.length_drop, Mem.length_read, Mem.length_read] at hLength
            have hWithin : spec.off - srcBase.off + spec.l ≤ base.l := by omega
            refine ⟨?_, fun _ => ⟨rfl, Nat.le_add_right _ _, ?_⟩⟩
            · rw [← hSame]
              exact m.read_part base hWithin
            · simp only
              omega

/-- The wire To value has its addr-spec where the rebuilt value has it, or where the rebuilt value
happens to repeat it. -/
def ToAligned (t : MsgHdr) (nap : NameAddr) : Prop :=
  let spec := nap.addr_spec
  let a := Mem.read (fun _ => .zero) spec
  spec.l = 0 ∨ spec.off = t.value.off + nap.specOffset ∨
    (spec.off + 1 = t.value.off + nap.specOffset ∧ ∀ c ∈ a, c = ch '<') ∨
    ∃ g, spec.off = t.value.off + nap.specOffset + spec.l + 1 + g ∧
      ((NameAddr.paramsText (fun _ => .zero) (untagged nap.params)).drop g).take spec.l = a

/-- Every slot's heap is on its own storage. -/
def Tm.Wired (tm : Tm) : Prop := ∀ i, (tm.tx i).scratch.slot = some i

theorem Tm.ctor_wired {p : CtorParams} {tm : Tm} (h : Tm.ctor p = some tm) : tm.Wired := by
  intro i
  rw [(Tm.ctor_fresh h).1]
  rfl

theorem allocSlot_wired {tm tm' : Tm} {i : Nat} (hWired : tm.Wired)
    (hRun : allocSlot.run tm = some (.ok i, tm')) : tm'.Wired := by
  have hReset : ∀ (tm : Tm) (k : Nat), tm.Wired → (tm.set k (tm.tx k).reset).Wired := by
    intro tm k hw j
    by_cases hj : j = k
    · subst hj
      rw [Tm.set_same]
      exact hw j
    · rw [Tm.set_other _ _ hj]
      exact hw j
  have hDrop : ∀ v, (tm.drop v).Wired := by
    intro v j
    rw [Tm.drop_tx, Tm.dropLinked]
    split
    · exact hWired j
    · split <;> exact hWired j
  rcases allocSlot_cases tm with ⟨k, -, -, hIs⟩ | ⟨-, ⟨v, -, hIs⟩ | ⟨-, hIs⟩⟩ <;> rw [hIs] at hRun
  · obtain ⟨-, rfl⟩ := Prod.mk.inj (Option.some.inj hRun)
    exact hReset tm k hWired
  · obtain ⟨-, rfl⟩ := Prod.mk.inj (Option.some.inj hRun)
    exact hReset _ v (hDrop v)
  · cases hRun

/-- An activated slot keeps what was filled in. -/
theorem activateUasSlot_ok {i : Nat} {tid : Tid} {timers : Tm → Option TimerPolicy} {tm tm' : Tm}
    {u : Unit} (hRun : (activateUasSlot i tid timers).run tm = some (.ok u, tm')) :
    UrisStay (tm.tx i) (tm'.tx i) ∧ ∀ j, j ≠ i → tm'.tx j = tm.tx j := by
  simp only [activateUasSlot, Op.bind_ok, Op.modify_ok, onSlot_ok] at hRun
  obtain ⟨_, _, rfl, tp, ⟨_, _, rfl, rfl⟩, rfl⟩ := hRun
  constructor
  · simp only [Tm.set_same, Tm.activate]
    exact ⟨Std.Refl.refl (r := Heap.Grows) _, rfl, rfl, rfl, rfl⟩
  · intro j hj
    rw [Tm.set_other _ _ hj]
    exact Tm.set_other _ _ hj

/-- What the constructor keeps of the From and To values. -/
theorem newUasTr_kept {tm tm' : Tm} {tpp : NewUasTrParams} {i : Nat} {f t : MsgHdr}
    {nf nt : NameAddr} (hWired : tm.Wired) (hTop : tpp.request.top .FROM = some f)
    (hFrom : f.WireNameaddr nf) (hTopTo : tpp.request.top .TO = some t) (hTo : t.WireNameaddr nt)
    (hRun : (newUasTr tpp).run tm = some (.ok i, tm')) :
    UrisKept f t nf nt (tm'.tx i) ∧ (tm'.tx i).scratch.mem tm'.mem = tm'.mem := by
  rw [newUasTr] at hRun
  obtain ⟨_, _, hGet, hRun⟩ := Op.bind_ok.mp hRun
  obtain ⟨rfl, rfl⟩ := Op.get_ok.mp hGet
  obtain ⟨⟨method, ruri⟩, _, hLine, hRun⟩ := Op.bind_ok.mp hRun
  obtain ⟨-, rfl⟩ := Op.demand_ok.mp hLine
  obtain ⟨_, _, hMethod, hRun⟩ := Op.bind_ok.mp hRun
  obtain ⟨-, rfl⟩ := Op.require_ok.mp hMethod
  obtain ⟨tid, _, hTid, hRun⟩ := Op.bind_ok.mp hRun
  obtain ⟨-, rfl⟩ := Op.orElse_ok.mp hTid
  obtain ⟨_, _, hNew, hRun⟩ := Op.bind_ok.mp hRun
  obtain ⟨-, rfl⟩ := Op.require_ok.mp hNew
  obtain ⟨tx_index, tm₁, hAlloc, hRun⟩ := Op.bind_ok.mp hRun
  obtain ⟨_, tm₂, hFill, hRun⟩ := Op.bind_ok.mp hRun
  obtain ⟨_, tm₃, hActivate, hRun⟩ := Op.bind_ok.mp hRun
  obtain ⟨rfl, rfl⟩ := Op.pure_ok.mp hRun
  obtain ⟨tp, hFilled, rfl⟩ := onSlot_ok.mp hFill
  obtain ⟨hStay, -⟩ := activateUasSlot_ok hActivate
  rw [Tm.set_same] at hStay
  have hKept := (fillUasTr_uris hTop hFrom hTopTo hTo (Op.cleanup_ok.mp hFilled)).stay hStay
  have hSlot : (tm₃.tx tx_index).scratch.slot = some tx_index := by
    have hGrows := grows_fillUasTr tpp method ruri tid tx_index tm₁ _ _ _ (Op.cleanup_ok.mp hFilled)
    rw [hStay.grows.slot, hGrows.slot]
    exact allocSlot_wired hWired hAlloc tx_index
  refine ⟨hKept, ?_⟩
  rw [Heap.mem, hSlot]
  exact Mem.put_self _ _

/-- The cached dialog URIs are those of the request just when its To value is laid out as the rebuilt
one is. -/
theorem newUasTr_uris_iff {tm tm' : Tm} {tpp : NewUasTrParams} {i : Nat} {f t : MsgHdr}
    {nf nt : NameAddr} (hWired : tm.Wired) (hTop : tpp.request.top .FROM = some f)
    (hFrom : f.WireNameaddr nf) (hTopTo : tpp.request.top .TO = some t) (hTo : t.WireNameaddr nt)
    (hRun : (newUasTr tpp).run tm = some (.ok i, tm')) :
    (let c := (tm'.tx i).cache.uas
     UriKept tm'.mem c.from_uri c.from_ nf.addr_spec ∧ UriKept tm'.mem c.to_uri c.to_ nt.addr_spec) ↔
      ToAligned t nt := by
  obtain ⟨hKept, hMem⟩ := newUasTr_kept hWired hTop hFrom hTopTo hTo hRun
  have hReadFrom := hKept.readFrom tm'.mem
  have hReadTo := hKept.readTo tm'.mem
  rw [hMem] at hReadFrom hReadTo
  obtain ⟨b, hWire⟩ := hTo.wire
  obtain ⟨-, hWithinTo, -⟩ := NameAddr.parseParts_within hTo.parts
  obtain ⟨b', hLitTo⟩ := hWithinTo.lit hWire
  have hTo' : UriKept tm'.mem (tm'.tx i).cache.uas.to_uri (tm'.tx i).cache.uas.to_
      nt.addr_spec ↔ ToAligned t nt := by
    rw [uriKept_iff hKept.to_uri, hReadTo, Mem.read_of_lit hLitTo tm'.mem fun _ => .zero, ToAligned]
    refine or_congr_right' fun hSome => ?_
    obtain ⟨k, hk, hPlace⟩ := NameAddr.addr_place hTo.parts hSome
    have hAt : nt.addr_spec.off - t.value.off = k := by omega
    have hLen : (Mem.read (fun _ => .zero) nt.addr_spec).length = nt.addr_spec.l :=
      Mem.length_read _ _
    have hFound := found_again_iff (r := NameAddr.paramsText (fun _ => .zero) (untagged nt.params))
      (NameAddr.length_displayText (m := fun _ => .zero)) hPlace
    rw [hLen] at hFound
    rw [hAt, toText, hFound]
    have hExact : k = nt.specOffset ↔ nt.addr_spec.off = t.value.off + nt.specOffset := by omega
    have hTight : k + 1 = nt.specOffset ↔ nt.addr_spec.off + 1 = t.value.off + nt.specOffset := by
      omega
    have hLater : ∀ g, k = nt.specOffset + nt.addr_spec.l + 1 + g ↔
        nt.addr_spec.off = t.value.off + nt.specOffset + nt.addr_spec.l + 1 + g := by
      omega
    simp only [hExact, hTight, hLater]
  have hFrom' : UriKept tm'.mem (tm'.tx i).cache.uas.from_uri
      (tm'.tx i).cache.uas.from_ nf.addr_spec := by
    rw [uriKept_iff hKept.from_uri]
    by_cases hNone : nf.addr_spec.l = 0
    · exact Or.inl hNone
    · obtain ⟨b, hWire⟩ := hFrom.wire
      obtain ⟨-, hWithin, -⟩ := NameAddr.parseParts_within hFrom.parts
      obtain ⟨b', hLit⟩ := hWithin.lit hWire
      obtain ⟨hSrc, hLow, hHigh⟩ := hWithin.inside hNone
      have hBack : f.value.off + (nf.addr_spec.off - f.value.off) = nf.addr_spec.off := by omega
      have hPart := Mem.read_part (fun _ => .zero) f.value
        (k := nf.addr_spec.off - f.value.off) (l := nf.addr_spec.l) (by omega)
      rw [hBack, ← hSrc] at hPart
      rw [hReadFrom, Mem.read_of_lit hLit tm'.mem fun _ => .zero]
      exact Or.inr hPart.symm
  exact ⟨fun h => hTo'.mp h.2, fun h => ⟨hFrom', hTo'.mpr h⟩⟩

/-- A header with a name-addr. -/
def nameaddrHdr (t : Hf) (v : String) : MsgHdr :=
  { hf_type := t, value := Str.lit (bytes v)
    parsed := (NameAddr.parseParts (fun _ => .zero) (Str.lit (bytes v))).map .nameaddr }

/-- An OPTIONS request. -/
def optionsTo (v : String) : Msg :=
  let via := Str.lit (bytes "SIP/2.0/UDP h;branch=z")
  let call_id := Str.lit (bytes "c")
  { sline := .req .OPTIONS (Str.lit (bytes "sip:b@h"))
    hdrs := [
      { hf_type := .VIA, value := via
        parsed := some (.via { params := [⟨⟨via.src, 14, 6⟩, ⟨via.src, 21, 1⟩⟩] }) },
      nameaddrHdr .FROM "<sip:a@h>;tag=1", nameaddrHdr .TO v,
      { hf_type := .CALLID, value := call_id, parsed := some (.generic call_id) },
      { hf_type := .CSEQ, value := Str.lit (bytes "1 OPTIONS")
        parsed := some (.cseq { val := 1, method := .OPTIONS }) }] }

theorem optionsTo_from (v : String) :
    (optionsTo v).top .FROM = some (nameaddrHdr .FROM "<sip:a@h>;tag=1") := rfl

theorem optionsTo_to (v : String) : (optionsTo v).top .TO = some (nameaddrHdr .TO v) := rfl

/-- A manager with one slot. -/
def oneSlot : CtorParams :=
  { sockname := some (.INET, bytes "h", 5060), transport := .UDP, max_transactions := 1 }

/-- A request as it comes from a peer. -/
def receivedFrom (request : Msg) : NewUasTrParams where
  request := request
  timers _ := none
  peer _ := { af := .INET, port := 5060, transport := .UDP, host := Str.lit (bytes "p") }
  local_ _ := { af := .INET, port := 5060, transport := .UDP, host := Str.lit (bytes "h") }

/-- The request given to a fresh manager. -/
def receivedTo (v : String) : Option (Except TmError Nat × Tm) :=
  (Tm.ctor oneSlot).bind (newUasTr (receivedFrom (optionsTo v))).run

/-- What the value of a header parses to. -/
def nameaddr (v : String) : NameAddr :=
  (NameAddr.parseParts (fun _ => .zero) (Str.lit (bytes v))).getD {}

theorem wireNameaddr_of_test (t : Hf) {v : String}
    (h : (NameAddr.parseParts (fun _ => .zero) (Str.lit (bytes v))).isSome = true) :
    (nameaddrHdr t v).WireNameaddr (nameaddr v) := by
  obtain ⟨nap, hNap⟩ := Option.isSome_iff_exists.mp h
  exact ⟨⟨_, rfl⟩, by simp [nameaddrHdr, nameaddr, hNap], by simp [nameaddrHdr, nameaddr, hNap]⟩

theorem newUasTr_uris_bracketed : ∃ (tm tm' : Tm) (i : Nat),
    (newUasTr (receivedFrom (optionsTo "<sip:b@h>"))).run tm = some (.ok i, tm') ∧
      let c := (tm'.tx i).cache.uas
      UriKept tm'.mem c.from_uri c.from_ (nameaddr "<sip:a@h>;tag=1").addr_spec ∧
        UriKept tm'.mem c.to_uri c.to_ (nameaddr "<sip:b@h>").addr_spec := by
  obtain ⟨⟨r, tm'⟩, hRun, hOk⟩ := (Option.any_eq_true _ _).mp
    (by decide +kernel : (receivedTo "<sip:b@h>").any (fun r => r.1.toOption.isSome) = true)
  obtain ⟨tm, hCtor, hRun⟩ := Option.bind_eq_some_iff.mp hRun
  cases r with
  | error e => exact absurd hOk Bool.false_ne_true
  | ok i =>
    exact ⟨tm, tm', i, hRun, (newUasTr_uris_iff (Tm.ctor_wired hCtor) (optionsTo_from _)
      (wireNameaddr_of_test .FROM (by decide +kernel)) (optionsTo_to _)
      (wireNameaddr_of_test .TO (by decide +kernel)) hRun).mpr (Or.inr (Or.inl (by decide +kernel)))⟩

/-- Of a To value without brackets the cached URI is `<sip:b@`. -/
theorem newUasTr_to_uri_shifted : ∃ (tm tm' : Tm) (i : Nat),
    (newUasTr (receivedFrom (optionsTo "sip:b@h"))).run tm = some (.ok i, tm') ∧
      ¬ UriKept tm'.mem (tm'.tx i).cache.uas.to_uri (tm'.tx i).cache.uas.to_
        (nameaddr "sip:b@h").addr_spec := by
  obtain ⟨⟨r, tm'⟩, hRun, hTest⟩ := (Option.any_eq_true _ _).mp
    (by decide +kernel : (receivedTo "sip:b@h").any (fun r => match r.1 with
      | .ok i => r.2.mem.read (r.2.tx i).cache.uas.to_uri != bytes "sip:b@h"
      | .error _ => false) = true)
  obtain ⟨tm, hCtor, hRun⟩ := Option.bind_eq_some_iff.mp hRun
  cases r with
  | error e => exact absurd hTest Bool.false_ne_true
  | ok i =>
    refine ⟨tm, tm', i, hRun, fun hKept => ?_⟩
    have hSpec : tm'.mem.read (nameaddr "sip:b@h").addr_spec = bytes "sip:b@h" :=
      (by decide +kernel : (nameaddr "sip:b@h").addr_spec = Str.lit (bytes "sip:b@h")) ▸ Mem.read_lit _ _
    have hNe : tm'.mem.read (tm'.tx i).cache.uas.to_uri ≠ bytes "sip:b@h" := bne_iff_ne.mp hTest
    exact hNe (hKept.1.trans hSpec)

end Microsippy
