import Microsippy.Tm.Steps

/-! # What a server transaction keeps of its request

The strings a slot is filled with lie on its own heap, below the checkpoint the constructor takes last.
-/

namespace Microsippy

set_option autoImplicit false

/-! ## Strings on a heap -/

namespace Heap

variable {hp hp' : Heap} {s : Str}

theorem laid_null (hp : Heap) : hp.Laid Str.null := Or.inl ⟨[], rfl⟩

theorem Laid.settled (h : hp.Laid s) : hp.Settled s := by
  intro j hSrc hSlot
  obtain ⟨b, hLit⟩ | ⟨i, -, -, hLe⟩ := h
  · rw [hLit] at hSrc
    cases hSrc
  · exact hLe

theorem Laid.holds (h : hp.Laid s) (hBase : hp.base = hp.alen) : hp.Holds s := by
  rw [Holds, hBase]
  exact h

theorem Grows.laid (h : hp.Grows hp') (hs : hp.Laid s) : hp'.Laid s := by
  obtain hLit | ⟨i, hSrc, hSlot, hLe⟩ := hs
  · exact Or.inl hLit
  · exact Or.inr ⟨i, hSrc, h.slot.trans hSlot, Nat.le_trans hLe h.le⟩

theorem Settled.laid {off l : Nat} (h : hp.Settled (hp.view off l)) : hp.Laid (hp.view off l) := by
  rw [Settled, view] at h
  rw [Laid, view]
  cases hSlot : hp.slot with
  | none => exact Or.inl ⟨_, rfl⟩
  | some i =>
    rw [hSlot] at h
    exact Or.inr ⟨i, rfl, rfl, h i rfl rfl⟩

theorem append_laid {m : Mem} {src : Str} (hRun : (append m src).run hp = some (.ok s, hp')) :
    hp'.Laid s ∧ s.l = src.l := by
  obtain ⟨-, hSettled, -, hView⟩ := append_ok hRun
  split at hView
  · rename_i hEmpty
    subst hView
    exact ⟨laid_null _, hEmpty.symm⟩
  · subst hView
    exact ⟨hSettled.laid, l_view _ _ _⟩

theorem sprintf_laid {t : Bytes} (hRun : (sprintf t).run hp = some (.ok s, hp')) :
    hp'.Laid s ∧ s.l = t.length := by
  obtain ⟨hIs, rfl⟩ := sprintf_ok hRun
  have hSettled : hp'.Settled (hp'.view hp.alen t.length) := by
    refine settled_view ?_
    rw [hIs]
    exact Nat.add_le_add_left (Nat.le_succ _) _
  exact ⟨hSettled.laid, l_view _ _ _⟩

/-- The first of the strings copied one after the other. -/
theorem appendAll_laid {m : Mem} {src : Str} {srcs copies : List Str}
    (hRun : (appendAll m (src :: srcs)).run hp = some (.ok copies, hp')) :
    hp'.Laid (copies.headD Str.null) ∧ (copies.headD Str.null).l = src.l ∧
      (hp'.mem m).read (copies.headD Str.null) = (hp.mem m).read src := by
  obtain ⟨t, hp₁, hFirst, hRun⟩ := Op.bind_ok.mp hRun
  obtain ⟨ts, hp₂, hRest, hRun⟩ := Op.bind_ok.mp hRun
  obtain ⟨rfl, rfl⟩ := Op.pure_ok.mp hRun
  obtain ⟨hLaid, hLength⟩ := append_laid hFirst
  have hGrows := keeps_appendAll m srcs _ _ _ hRest
  refine ⟨hGrows.laid hLaid, hLength, ?_⟩
  exact (hGrows.read hLaid.settled m).trans (append_ok hFirst).2.2.1

theorem Laid.rebased {src dst srcp t : Str} (h : hp.Laid dst) (hLength : dst.l = src.l)
    (hRebase : uasRebaseSubstr src dst srcp = some t) : hp.Laid t := by
  rw [uasRebaseSubstr] at hRebase
  split at hRebase
  · obtain rfl := Option.some.inj hRebase
    exact laid_null hp
  · split at hRebase
    · cases hRebase
    · dsimp only at hRebase
      split at hRebase
      · cases hRebase
      · rename_i hWithin
        obtain rfl := Option.some.inj hRebase
        obtain hLit | ⟨i, hSrc, hSlot, hLe⟩ := h
        · exact Or.inl hLit
        · refine Or.inr ⟨i, hSrc, hSlot, ?_⟩
          dsimp only
          omega

/-- A part of a copy is a copy of the part. -/
theorem rebased_read {m m' : Mem} {src dst srcp t : Str} (hCopy : m'.read dst = m.read src)
    (hRebase : uasRebaseSubstr src dst srcp = some t) : m'.read t = m.read srcp := by
  have hLength : dst.l = src.l := by
    rw [← Mem.length_read m' dst, hCopy, Mem.length_read]
  rw [uasRebaseSubstr] at hRebase
  split at hRebase
  · rename_i hEmpty
    obtain rfl := Option.some.inj hRebase
    rw [Mem.read_of_empty hEmpty, Mem.read_of_empty rfl]
  · split at hRebase
    · cases hRebase
    · rename_i hWhere
      rw [not_or, not_not, Nat.not_lt] at hWhere
      dsimp only at hRebase
      split at hRebase
      · cases hRebase
      · rename_i hWithin
        obtain rfl := Option.some.inj hRebase
        obtain ⟨src', off, l⟩ := srcp
        obtain ⟨rfl, hFrom⟩ := hWhere
        obtain ⟨k, rfl⟩ := Nat.exists_eq_add_of_le hFrom
        dsimp only at hWithin ⊢
        rw [Nat.add_sub_cancel_left] at hWithin ⊢
        rw [Mem.read_part m src (by omega), ← hCopy]
        exact Mem.read_part m' dst (by omega)

end Heap

/-! ## Slots -/

/-- Only the scratch heap has changed, and it has grown. -/
def Txi.GrowsOnly (tp tp' : Txi) : Prop := ∃ scratch, tp.scratch.Grows scratch ∧ tp' = { tp with scratch }

instance : IsPreorder Txi Txi.GrowsOnly where
  refl tp := ⟨tp.scratch, Std.Refl.refl _, rfl⟩
  trans _ _ _ h h' := by
    obtain ⟨hp, hGrows, rfl⟩ := h
    obtain ⟨hp', hGrows', rfl⟩ := h'
    exact ⟨hp', IsTrans.trans _ _ _ hGrows hGrows', rfl⟩

theorem growsOnly_onScratch {α : Type} {x : HeapM α} (hx : Op.Keeps Heap.Grows x) (e : TmError) :
    Op.Keeps Txi.GrowsOnly (onScratch e x) := by
  refine .failWith ?_ e
  intro tp r tp' hRun
  obtain ⟨hp, hPart, rfl⟩ := Op.zoom_some.mp hRun
  exact ⟨hp, hx _ _ _ hPart, rfl⟩

theorem growsOnly_uasCopyHdrs (m : Mem) (srcp : List MsgHdr) :
    Op.Keeps Txi.GrowsOnly (uasCopyHdrs m srcp) := by
  cases srcp with
  | nil => exact .pure _
  | cons h hs =>
    exact .bind (growsOnly_onScratch (Heap.keeps_alloc _) _) fun _ =>
      growsOnly_onScratch (Heap.keeps_appendAll _ _) _

theorem growsOnly_uasCopyNameaddrWithoutParam (m : Mem) (nap : NameAddr) (skip : Bytes) :
    Op.Keeps Txi.GrowsOnly (uasCopyNameaddrWithoutParam m nap skip) :=
  .bind .get fun _ => .bind (growsOnly_onScratch (Heap.keeps_build _ _) _) fun _ =>
    .bind (growsOnly_onScratch (Heap.keeps_alloc _) _) fun _ => .pure _

theorem growsOnly_uasFormatLocalContactUri (m : Mem) (localp : Addr) :
    Op.Keeps Txi.GrowsOnly (uasFormatLocalContactUri m localp) :=
  .bind (.bind .get fun _ => .pure _) fun _ => .bind (.orElse _ _) fun _ =>
    growsOnly_onScratch (Heap.keeps_sprintf _) _

/-- What a slot's string is, another was before with some heap in that slot. -/
def Txi.Copied (m : Mem) (src dst : Str) (tp : Txi) : Prop :=
  ∃ scratch : Heap, scratch.slot = tp.scratch.slot ∧
    (tp.scratch.mem m).read dst = (scratch.mem m).read src

theorem Txi.Copied.grows {m : Mem} {src dst : Str} {tp tp' : Txi} (h : tp.Copied m src dst)
    (hLaid : tp.scratch.Laid dst) (hGrows : tp.scratch.Grows tp'.scratch) : tp'.Copied m src dst := by
  obtain ⟨scratch, hSlot, hRead⟩ := h
  exact ⟨scratch, hSlot.trans hGrows.slot.symm, (hGrows.read hLaid.settled m).trans hRead⟩

theorem uasCopyHdrs_laid {m : Mem} {h : MsgHdr} {hs : List MsgHdr} {copies : List Str} {tp tp' : Txi}
    (hRun : (uasCopyHdrs m (h :: hs)).run tp = some (.ok copies, tp')) :
    tp'.scratch.Laid (copies.headD Str.null) ∧ (copies.headD Str.null).l = h.value.l ∧
      tp'.Copied m h.value (copies.headD Str.null) := by
  obtain ⟨_, tp₁, hAlloc, hRun⟩ := Op.bind_ok.mp hRun
  obtain ⟨hp, hCopies, rfl⟩ := onScratch_ok.mp hRun
  obtain ⟨hLaid, hLength, hRead⟩ := Heap.appendAll_laid hCopies
  exact ⟨hLaid, hLength, tp₁.scratch, (Heap.keeps_appendAll _ _ _ _ _ hCopies).slot.symm, hRead⟩

theorem copyTargetAddr_laid {m : Mem} {srcp addr : Addr} {tp tp' : Txi}
    (hRun : (copyTargetAddr m srcp).run tp = some (.ok addr, tp')) :
    tp.GrowsOnly tp' ∧ addr = { srcp with host := addr.host } ∧
      (addr.host.l = 0 ∨ tp'.scratch.Laid addr.host) ∧
        (tp'.scratch.mem m).read addr.host = (tp.scratch.mem m).read srcp.host := by
  obtain ⟨host, tp₁, hHost, hRun⟩ := Op.bind_ok.mp hRun
  obtain ⟨rfl, rfl⟩ := Op.pure_ok.mp hRun
  split at hHost
  · rename_i hEmpty
    obtain ⟨rfl, rfl⟩ := Op.pure_ok.mp hHost
    exact ⟨Std.Refl.refl _, rfl, Or.inl hEmpty, rfl⟩
  · obtain ⟨hp, hAppend, rfl⟩ := onScratch_ok.mp hHost
    obtain ⟨hGrows, -, hRead, -⟩ := Heap.append_ok hAppend
    exact ⟨⟨hp, hGrows, rfl⟩, rfl, Or.inr (Heap.append_laid hAppend).1, hRead⟩

theorem growsOnly_contactUri (m : Mem) (contact : Option NameAddr) :
    Op.Keeps Txi.GrowsOnly (match contact with
      | some contact => onScratch .NOSPC (Heap.append m contact.addr_spec)
      | none => pure Str.null) := by
  cases contact with
  | none => exact .pure _
  | some contact => exact growsOnly_onScratch (Heap.keeps_append m _) _

/-- The strings a slot is being filled with are on its heap. -/
structure Txi.Named (tp : Txi) : Prop where
  call_id : tp.scratch.Laid tp.cache.call_id
  branch : tp.scratch.Laid tp.cache.branch
  from_tag : tp.scratch.Laid tp.cache.from_tag
  host : tp.peer.host.l = 0 ∨ tp.scratch.Laid tp.peer.host
  ack_hash : tp.cache.uas.ack_hash = 0

theorem Txi.Named.grows {tp tp' : Txi} (h : tp.Named) (hGrows : tp.GrowsOnly tp') : tp'.Named := by
  obtain ⟨hp, hGrows, rfl⟩ := hGrows
  exact ⟨hGrows.laid h.call_id, hGrows.laid h.branch, hGrows.laid h.from_tag,
    h.host.imp_right hGrows.laid, h.ack_hash⟩

theorem Txi.GrowsOnly.scratch {tp tp' : Txi} (h : tp.GrowsOnly tp') : tp.scratch.Grows tp'.scratch := by
  obtain ⟨hp, hGrows, rfl⟩ := h
  exact hGrows

theorem Txi.GrowsOnly.cache {tp tp' : Txi} (h : tp.GrowsOnly tp') : tp'.cache = tp.cache := by
  obtain ⟨hp, -, rfl⟩ := h
  rfl

theorem Txi.Named.modUasCache {tp : Txi} {f : UasCache → UasCache} (h : tp.Named)
    (hAck : (f tp.cache.uas).ack_hash = tp.cache.uas.ack_hash) :
    ({ tp with cache := { tp.cache with uas := f tp.cache.uas } } : Txi).Named :=
  ⟨h.call_id, h.branch, h.from_tag, h.host, hAck.trans h.ack_hash⟩

theorem Txi.reset_named (tp : Txi) : tp.reset.Named :=
  ⟨Heap.laid_null _, Heap.laid_null _, Heap.laid_null _, Or.inl rfl, rfl⟩

theorem uasCacheRequest_named {m : Mem} {reqp : Msg} {ruri : Str} {tid : Tid} {tp tp' : Txi}
    {u : Unit} (hNamed : tp.Named) (hRun : (uasCacheRequest m reqp ruri tid).run tp = some (.ok u, tp')) :
    tp'.Named ∧ tp.scratch.Grows tp'.scratch ∧ tp'.cache.call_id = tp.cache.call_id ∧
      tp'.Copied m tid.vbranch tp'.cache.branch ∧ tp'.Copied m tid.from_tag tp'.cache.from_tag := by
  rw [uasCacheRequest] at hRun
  obtain ⟨_, _, hDone, hRun⟩ := Op.bind_ok.mp hRun
  obtain ⟨-, rfl⟩ := Op.require_ok.mp hDone
  obtain ⟨_, _, hDone, hRun⟩ := Op.bind_ok.mp hRun
  obtain ⟨-, rfl⟩ := Op.assert_ok.mp hDone
  obtain ⟨fromp, _, hDone, hRun⟩ := Op.bind_ok.mp hRun
  obtain ⟨-, rfl⟩ := Op.demand_ok.mp hDone
  obtain ⟨fromAddr, _, hDone, hRun⟩ := Op.bind_ok.mp hRun
  obtain ⟨-, rfl⟩ := Op.demand_ok.mp hDone
  obtain ⟨top, _, hDone, hRun⟩ := Op.bind_ok.mp hRun
  obtain ⟨-, rfl⟩ := Op.demand_ok.mp hDone
  obtain ⟨toAddr, _, hDone, hRun⟩ := Op.bind_ok.mp hRun
  obtain ⟨-, rfl⟩ := Op.demand_ok.mp hDone
  obtain ⟨cseq, _, hDone, hRun⟩ := Op.bind_ok.mp hRun
  obtain ⟨-, rfl⟩ := Op.demand_ok.mp hDone
  obtain ⟨via, _, hDone, hRun⟩ := Op.bind_ok.mp hRun
  obtain ⟨hVia, rfl⟩ := Op.orElse_ok.mp hDone
  obtain ⟨from_, tp₁, hFrom, hRun⟩ := Op.bind_ok.mp hRun
  obtain ⟨_, tp₂, hDone, hRun⟩ := Op.bind_ok.mp hRun
  obtain rfl := Op.modify_ok.mp hDone
  obtain ⟨to_, tp₃, hTo, hRun⟩ := Op.bind_ok.mp hRun
  obtain ⟨_, tp₄, hDone, hRun⟩ := Op.bind_ok.mp hRun
  obtain rfl := Op.modify_ok.mp hDone
  obtain ⟨request_uri, tp₅, hUri, hRun⟩ := Op.bind_ok.mp hRun
  obtain ⟨_, tp₆, hDone, hRun⟩ := Op.bind_ok.mp hRun
  obtain rfl := Op.modify_ok.mp hDone
  obtain ⟨from_uri, _, hDone, hRun⟩ := Op.bind_ok.mp hRun
  obtain ⟨-, rfl⟩ := Op.orElse_ok.mp hDone
  obtain ⟨_, tp₇, hDone, hRun⟩ := Op.bind_ok.mp hRun
  obtain rfl := Op.modify_ok.mp hDone
  obtain ⟨to_uri, _, hDone, hRun⟩ := Op.bind_ok.mp hRun
  obtain ⟨-, rfl⟩ := Op.orElse_ok.mp hDone
  obtain ⟨_, tp₈, hDone, hRun⟩ := Op.bind_ok.mp hRun
  obtain rfl := Op.modify_ok.mp hDone
  obtain ⟨viaCopies, tp₉, hVias, hRun⟩ := Op.bind_ok.mp hRun
  obtain ⟨_, tp₁₀, hDone, hRun⟩ := Op.bind_ok.mp hRun
  obtain rfl := Op.modify_ok.mp hDone
  obtain ⟨branch, _, hDone, hRun⟩ := Op.bind_ok.mp hRun
  obtain ⟨hBranch, rfl⟩ := Op.orElse_ok.mp hDone
  obtain ⟨_, tp₁₁, hDone, hRun⟩ := Op.bind_ok.mp hRun
  obtain rfl := Op.modify_ok.mp hDone
  obtain ⟨record_routes, tp₁₂, hRoutes, hRun⟩ := Op.bind_ok.mp hRun
  obtain ⟨_, tp₁₃, hDone, hRun⟩ := Op.bind_ok.mp hRun
  obtain rfl := Op.modify_ok.mp hDone
  obtain ⟨contact_uri, tp₁₄, hContact, hRun⟩ := Op.bind_ok.mp hRun
  obtain ⟨_, tp₁₅, hDone, hRun⟩ := Op.bind_ok.mp hRun
  obtain rfl := Op.modify_ok.mp hDone
  obtain ⟨from_tag, _, hDone, hRun⟩ := Op.bind_ok.mp hRun
  obtain ⟨hTag, rfl⟩ := Op.orElse_ok.mp hDone
  obtain rfl := Op.modify_ok.mp hRun
  have hFromGrows := growsOnly_onScratch (Heap.keeps_append m _) _ _ _ _ hFrom
  obtain ⟨hp, hAppend, rfl⟩ := onScratch_ok.mp hFrom
  obtain ⟨hFromLaid, hFromLength⟩ := Heap.append_laid hAppend
  have hFromRead := (Heap.append_ok hAppend).2.2.1
  have hToGrows := growsOnly_uasCopyNameaddrWithoutParam _ _ _ _ _ _ hTo
  have hUriGrows := growsOnly_onScratch (Heap.keeps_append m _) _ _ _ _ hUri
  have hViasGrows := growsOnly_uasCopyHdrs _ _ _ _ _ hVias
  have hRoutesGrows := growsOnly_uasCopyHdrs _ _ _ _ _ hRoutes
  have hContactGrows := growsOnly_contactUri m _ _ _ _ hContact
  have hBranchLaid : tp₉.scratch.Laid branch ∧ tp₉.Copied m tid.vbranch branch := by
    cases hFilter : reqp.hdrs.filter (·.hf_type == .VIA) with
    | nil =>
      rw [hFilter] at hVia
      cases hVia
    | cons v vias =>
      rw [hFilter] at hVia hVias
      obtain rfl := Option.some.inj hVia
      obtain ⟨hLaid, hLength, scratch, hSlot, hRead⟩ := uasCopyHdrs_laid hVias
      exact ⟨hLaid.rebased hLength hBranch, scratch, hSlot, Heap.rebased_read hRead hBranch⟩
  have hCopied := ((hNamed.grows hFromGrows).modUasCache (f := fun u => { u with from_ }) rfl).grows hToGrows
  have hKnown := (hCopied.modUasCache (f := fun u => { u with to_ }) rfl).grows hUriGrows
  have hRebased := ((hKnown.modUasCache (f := fun u => { u with request_uri }) rfl).modUasCache
    (f := fun u => { u with from_uri }) rfl).modUasCache (f := fun u => { u with to_uri }) rfl
  have hVias := (hRebased.grows hViasGrows).modUasCache (f := fun u => { u with vias := viaCopies }) rfl
  have hBranched : Txi.Named { tp₉ with
      cache := { tp₉.cache with branch, uas := { tp₉.cache.uas with vias := viaCopies } } } :=
    ⟨hVias.call_id, hBranchLaid.1, hVias.from_tag, hVias.host, hVias.ack_hash⟩
  have hRouted := ((hBranched.grows hRoutesGrows).modUasCache (f := fun u => { u with record_routes })
    rfl).grows hContactGrows
  have hTagFirst := hFromLaid.rebased hFromLength hTag
  have hCached : hp.Grows tp₉.scratch :=
    IsTrans.trans _ _ _ hToGrows.scratch (IsTrans.trans _ _ _ hUriGrows.scratch hViasGrows.scratch)
  have hRest : tp₉.scratch.Grows tp₁₄.scratch :=
    IsTrans.trans _ _ _ hRoutesGrows.scratch hContactGrows.scratch
  have hAll : hp.Grows tp₁₄.scratch := IsTrans.trans _ _ _ hCached hRest
  refine ⟨⟨hRouted.call_id, hRouted.branch, hAll.laid hTagFirst, hRouted.host, hRouted.ack_hash⟩,
    IsTrans.trans _ _ _ hFromGrows.scratch hAll, ?_, ?_, ?_⟩
  · dsimp only
    rw [hContactGrows.cache]
    dsimp only
    rw [hRoutesGrows.cache]
    dsimp only
    rw [hViasGrows.cache]
    dsimp only
    rw [hUriGrows.cache]
    dsimp only
    rw [hToGrows.cache]
  · have hBranchCopied : Txi.Copied m tid.vbranch branch tp₁₄ :=
      hBranchLaid.2.grows hBranchLaid.1 hRest
    obtain ⟨scratch, hSlot, hRead⟩ := hBranchCopied
    refine ⟨scratch, hSlot, ?_⟩
    dsimp only
    rw [hContactGrows.cache]
    dsimp only
    rw [hRoutesGrows.cache]
    exact hRead
  · have hTagCopied : Txi.Copied m tid.from_tag from_tag { tp with scratch := hp } :=
      ⟨tp.scratch, hFromGrows.scratch.slot.symm, Heap.rebased_read hFromRead hTag⟩
    have hTagGrown : Txi.Copied m tid.from_tag from_tag tp₁₄ := hTagCopied.grows hTagFirst hAll
    exact hTagGrown

/-- The local tags a manager gives have a property, those of its id policy if it has one. -/
def Tm.TagsMeet (P : Bytes → Prop) (tm : Tm) : Prop :=
  match tm.id_policy with
  | none => ∀ i, P (bytes "t" ++ dec i ++ bytes "-1")
  | some policy => ∀ n inp hp out, (policy.cb n inp hp).1 = .ok out → out.local_tag.l ≠ 0 →
    ∀ m, P (((policy.cb n inp hp).2.mem m).read out.local_tag)

theorem uasPrepareLocalTag_tag {tm : Tm} {i : Nat} {cseq : UInt32} {method : Method} {tp tp' : Txi}
    {u : Unit} (hRun : (uasPrepareLocalTag tm i cseq method).run tp = some (.ok u, tp')) :
    ∃ scratch id_calls to_tag, tp.scratch.Grows scratch ∧ to_tag.l ≠ 0 ∧
      (tm.LaysTags → scratch.Laid to_tag) ∧
      (∀ P, tm.TagsMeet P → ∀ m, P ((scratch.mem m).read to_tag)) ∧
        tp' = { tp with scratch, id_calls, cache := { tp.cache with to_tag } } := by
  obtain ⟨to_tag, tp₁, hTag, hRun⟩ := Op.bind_ok.mp hRun
  obtain rfl := Op.modify_ok.mp hRun
  cases hPolicy : tm.id_policy with
  | none =>
    rw [hPolicy] at hTag
    obtain ⟨hp, hPrinted, rfl⟩ := onScratch_ok.mp hTag
    obtain ⟨hLaid, hLength⟩ := Heap.sprintf_laid hPrinted
    refine ⟨hp, tp.id_calls, to_tag, Heap.keeps_sprintf _ _ _ _ hPrinted, ?_, fun _ => hLaid,
      fun P hMeet m => ?_, rfl⟩
    · rw [hLength, List.length_append, List.length_append]
      exact Nat.ne_of_gt (Nat.add_pos_right _ (by decide))
    · rw [Tm.TagsMeet, hPolicy] at hMeet
      rw [(Heap.sprintf_read m hPrinted).1]
      exact hMeet i
  | some policy =>
    rw [hPolicy] at hTag
    obtain ⟨ids, tp₂, hIds, hTag⟩ := Op.bind_ok.mp hTag
    obtain ⟨_, _, hDone, hTag⟩ := Op.bind_ok.mp hTag
    obtain ⟨hSome, rfl⟩ := Op.require_ok.mp hDone
    obtain ⟨rfl, rfl⟩ := Op.pure_ok.mp hTag
    obtain ⟨_, _, hGet, hIds⟩ := Op.bind_ok.mp hIds
    obtain ⟨rfl, rfl⟩ := Op.get_ok.mp hGet
    obtain ⟨_, _, hCalled, hIds⟩ := Op.bind_ok.mp hIds
    obtain rfl := Op.modify_ok.mp hCalled
    obtain ⟨hAnswer, rfl⟩ := Op.orElse_ok.mp hIds
    have hGave : (policy.cb tp.id_calls { transaction_index := i, cseq, method_type := method }
        tp.scratch).1 = .ok ids := by
      cases hIs : (policy.cb tp.id_calls { transaction_index := i, cseq, method_type := method }
          tp.scratch).1 with
      | error e =>
        rw [hIs] at hAnswer
        cases hAnswer
      | ok out =>
        rw [hIs] at hAnswer
        rw [Option.some.inj hAnswer]
    refine ⟨_, _, ids.local_tag, (policy.extends_heap _ _ _).to_grows, hSome,
      fun hTags => hTags policy hPolicy _ _ _ ids hGave, fun P hMeet m => ?_, rfl⟩
    rw [Tm.TagsMeet, hPolicy] at hMeet
    exact hMeet _ _ _ ids hGave hSome m

/-- A slot that is filled, its last checkpoint taken. -/
structure Txi.Filled (tm : Tm) (tp : Txi) : Prop where
  named : tp.Named
  base : tp.scratch.base = tp.scratch.alen
  tagged : tp.cache.to_tag.l ≠ 0
  to_tag : tm.LaysTags → tp.scratch.Laid tp.cache.to_tag

/-- The address of the request's sender, copied. -/
structure Txi.PeerCopied (tpp : NewUasTrParams) (tm : Tm) (tp' : Txi) : Prop where
  peer : tp'.peer = { tpp.peer tm with host := tp'.peer.host }
  host : ∃ scratch : Heap, scratch.slot = tp'.scratch.slot ∧
    (tp'.scratch.mem tm.mem).read tp'.peer.host = (scratch.mem tm.mem).read (tpp.peer tm).host

/-- The identity of a request, copied. -/
structure Txi.TidCopied (m : Mem) (tid : Tid) (tp : Txi) : Prop where
  call_id : tp.Copied m tid.call_id tp.cache.call_id
  branch : tp.Copied m tid.vbranch tp.cache.branch
  from_tag : tp.Copied m tid.from_tag tp.cache.from_tag

theorem fillUasTr_filled {tpp : NewUasTrParams} {method : Method} {ruri : Str} {tid : Tid} {i : Nat}
    {tm : Tm} {tp tp' : Txi} {u : Unit} (hNamed : tp.Named)
    (hRun : (fillUasTr tpp method ruri tid i tm).run tp = some (.ok u, tp')) :
    tp'.Filled tm ∧ tp'.PeerCopied tpp tm ∧ tp'.TidCopied tm.mem tid ∧
      (tm.LaysTags → ∀ P, tm.TagsMeet P → ∀ m, P ((tp'.scratch.mem m).read tp'.cache.to_tag)) := by
  rw [fillUasTr] at hRun
  obtain ⟨_, _, hDone, hRun⟩ := Op.bind_ok.mp hRun
  obtain rfl := Op.modify_ok.mp hDone
  obtain ⟨_, _, hDone, hRun⟩ := Op.bind_ok.mp hRun
  obtain rfl := Op.modify_ok.mp hDone
  obtain ⟨call_id, tp₁, hCallId, hRun⟩ := Op.bind_ok.mp hRun
  obtain ⟨_, _, hDone, hRun⟩ := Op.bind_ok.mp hRun
  obtain rfl := Op.modify_ok.mp hDone
  obtain ⟨_, tp₂, hCached, hRun⟩ := Op.bind_ok.mp hRun
  obtain ⟨local_contact_uri, tp₃, hContact, hRun⟩ := Op.bind_ok.mp hRun
  obtain ⟨_, _, hDone, hRun⟩ := Op.bind_ok.mp hRun
  obtain rfl := Op.modify_ok.mp hDone
  obtain ⟨_, tp₄, hTagged, hRun⟩ := Op.bind_ok.mp hRun
  obtain ⟨peer, tp₅, hPeer, hRun⟩ := Op.bind_ok.mp hRun
  obtain ⟨_, _, hDone, hRun⟩ := Op.bind_ok.mp hRun
  obtain rfl := Op.modify_ok.mp hDone
  obtain ⟨local_, tp₆, hLocal, hRun⟩ := Op.bind_ok.mp hRun
  obtain ⟨_, _, hDone, hRun⟩ := Op.bind_ok.mp hRun
  obtain rfl := Op.modify_ok.mp hDone
  obtain ⟨cp, tp₇, hCheckpoint, hRun⟩ := Op.bind_ok.mp hRun
  obtain rfl := Op.modify_ok.mp hRun
  have hStart : Txi.Named { tp with
      uas_callbacks := tpp.callbacks.getD {}, cache := { tp.cache with method_type := method } } :=
    ⟨hNamed.call_id, hNamed.branch, hNamed.from_tag, hNamed.host, hNamed.ack_hash⟩
  have hCallIdGrows := growsOnly_onScratch (Heap.keeps_append _ _) _ _ _ _ hCallId
  obtain ⟨hp₁, hAppend, rfl⟩ := onScratch_ok.mp hCallId
  have hCopied := hStart.grows hCallIdGrows
  have hCallIdLaid := (Heap.append_laid hAppend).1
  have hRequest := fun hNamed => uasCacheRequest_named hNamed hCached
  obtain ⟨hNamed₂, hGrows₂, hCallIdSame, hBranch, hTag⟩ := hRequest
    ⟨hCallIdLaid, hCopied.branch, hCopied.from_tag, hCopied.host, hCopied.ack_hash⟩
  have hContactGrows := growsOnly_uasFormatLocalContactUri _ _ _ _ _ hContact
  have hNamed₃ := (hNamed₂.grows hContactGrows).modUasCache (f := fun u => { u with local_contact_uri }) rfl
  obtain ⟨hp₄, id_calls, to_tag, hTagGrows, hTagSome, hTagLaid, hTagMeets, rfl⟩ := uasPrepareLocalTag_tag hTagged
  have hNamed₄ := hNamed₃.grows ⟨hp₄, hTagGrows, rfl⟩
  obtain ⟨hPeerGrows, hPeerIs, hHost, hHostRead⟩ := copyTargetAddr_laid hPeer
  obtain ⟨hp₅, hGrows₅, rfl⟩ := hPeerGrows
  obtain ⟨hLocalGrows, -⟩ := copyTargetAddr_laid hLocal
  obtain ⟨hp₆, hGrows₆, rfl⟩ := hLocalGrows
  obtain ⟨hp₇, hMark, rfl⟩ := onScratch_ok.mp hCheckpoint
  have hGrows₇ := Heap.keeps_checkpoint _ _ _ hMark
  have hBase : hp₇.base = hp₇.alen := by
    obtain ⟨_, _, hGet, hMark⟩ := Op.bind_ok.mp hMark
    obtain ⟨rfl, rfl⟩ := Op.get_ok.mp hGet
    obtain ⟨_, _, hDone, hMark⟩ := Op.bind_ok.mp hMark
    obtain ⟨-, rfl⟩ := Op.assert_ok.mp hDone
    obtain ⟨_, _, hDone, hMark⟩ := Op.bind_ok.mp hMark
    obtain rfl := Op.modify_ok.mp hDone
    obtain ⟨-, rfl⟩ := Op.pure_ok.mp hMark
    simp [Heap.base]
  have hGrows : hp₄.Grows hp₇ :=
    IsTrans.trans _ _ _ hGrows₅ (IsTrans.trans _ _ _ hGrows₆ hGrows₇)
  have hMore : hp₅.Grows hp₇ := IsTrans.trans _ _ _ hGrows₆ hGrows₇
  refine ⟨⟨⟨hGrows.laid hNamed₄.call_id, hGrows.laid hNamed₄.branch, hGrows.laid hNamed₄.from_tag,
    hHost.imp_right hMore.laid, hNamed₄.ack_hash⟩, hBase, hTagSome, fun hTags => hGrows.laid (hTagLaid hTags)⟩,
    ⟨hPeerIs, hp₄, hGrows.slot.symm, ?_⟩, ?_, fun hTags P hMeet m => ?_⟩
  · refine Eq.trans ?_ hHostRead
    cases hHost with
    | inl hEmpty => rw [Mem.read_of_empty hEmpty, Mem.read_of_empty hEmpty]
    | inr hLaid => exact hMore.read hLaid.settled _
  · have hCallIdCopied : tp₂.Copied tm.mem tid.call_id tp₂.cache.call_id := by
      rw [hCallIdSame]
      refine Txi.Copied.grows ?_ hCallIdLaid hGrows₂
      exact ⟨tp.scratch, hCallIdGrows.scratch.slot.symm, (Heap.append_ok hAppend).2.2.1⟩
    have hWhole : tp₂.scratch.Grows hp₇ :=
      IsTrans.trans _ _ _ hContactGrows.scratch (IsTrans.trans _ _ _ hTagGrows hGrows)
    have hKept : ∀ {src dst : Str}, tp₂.Copied tm.mem src dst → tp₂.scratch.Laid dst →
        ∃ scratch : Heap, scratch.slot = hp₇.slot ∧
          (hp₇.mem tm.mem).read dst = (scratch.mem tm.mem).read src := by
      rintro src dst ⟨scratch, hSlot, hRead⟩ hLaid
      exact ⟨scratch, hSlot.trans hWhole.slot.symm, (hWhole.read hLaid.settled _).trans hRead⟩
    have hCallIdKept := hKept hCallIdCopied hNamed₂.call_id
    have hBranchKept := hKept hBranch hNamed₂.branch
    have hTagKept := hKept hTag hNamed₂.from_tag
    rw [← hContactGrows.cache] at hCallIdKept hBranchKept hTagKept
    exact ⟨hCallIdKept, hBranchKept, hTagKept⟩
  · dsimp only
    rw [hGrows.read (hTagLaid hTags).settled]
    exact hTagMeets P hMeet m

end Microsippy
