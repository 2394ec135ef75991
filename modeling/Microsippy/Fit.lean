import Microsippy.Checkpoints
import Microsippy.TimerValues

/-! # What the assertions of a run rest on

A slot can be rolled back to its checkpoint, and a client transaction has what its request is built from.
-/

namespace Microsippy

set_option autoImplicit false

/-! ## Slots -/

/-- The heap of a slot can take an outbound checkpoint and go back to it. -/
structure Txi.Rolls (tp : Txi) : Prop where
  room : tp.scratch.ncheckpoints = txNcheckpoints
  last : ∀ cp, tp.checkpoint = some cp →
    tp.scratch.checkpoints.length = cp + 1 ∧ tp.scratch.base ≤ tp.scratch.alen

/-- A slot as every step finds and leaves it. -/
structure Txi.Fit (tp : Txi) : Prop extends Txi.Rolls tp where
  method : tp.cache.method_type = tp.method_type
  policy : tp.active = true → tp.timers.t1_ms ≠ 0 ∧ tp.timers.t2_ms ≠ 0
  client : tp.active = true → tp.role = .UAC →
    tp.checkpoint.isSome ∧ (tp.method_type = .INVITE → tp.invite.isSome)
  record : tp.invite.isSome → tp.method_type = .INVITE ∧ tp.cache.uac.request_uri.isSome
  idle : tp.active = false → tp.cache.uac.request_uri.isSome = false

theorem Txi.Rolls.steady {filling : Prop} {tp tp' : Txi} (h : tp.Rolls) (hSteady : tp.Steady filling tp') :
    tp'.Rolls := by
  obtain ⟨-, -, hCheckpoint, hHeap, -⟩ := hSteady
  refine ⟨hHeap.ncheckpoints.trans h.room, fun cp hIs => ?_⟩
  obtain ⟨hLast, hLe⟩ := h.last cp (hCheckpoint ▸ hIs)
  exact ⟨hHeap.checkpoints ▸ hLast, Heap.base_congr hHeap.checkpoints ▸ hHeap.le hLe⟩

theorem Txi.Fit.method_eq {tp tp' : Txi} (h : tp.Fit) (hSteady : tp.Steady False tp') :
    tp'.method_type = tp.method_type :=
  (hSteady.request.resolve_left id).method.elim id fun hIs => hIs.trans h.method

theorem Txi.Fit.steady {tp tp' : Txi} (h : tp.Fit) (hSteady : tp.Steady False tp') : tp'.Fit := by
  obtain ⟨-, hCached, hUri⟩ := hSteady.request.resolve_left id
  have hKept := h.method_eq hSteady
  refine ⟨h.toRolls.steady hSteady, hCached.trans (h.method.trans hKept.symm), fun hActive => ?_,
    fun hActive hRole => ?_, fun hRecord => ?_, fun hFree => ?_⟩
  · rw [hSteady.timers]
    exact h.policy (hSteady.ctl.active ▸ hActive)
  · rw [hSteady.checkpoint, hSteady.ctl.invite, hKept]
    exact h.client (hSteady.ctl.active ▸ hActive) (hSteady.ctl.role ▸ hRole)
  · rw [hKept, hUri]
    exact h.record (hSteady.ctl.invite.symm.trans hRecord)
  · rw [hUri]
    exact h.idle (hSteady.ctl.active ▸ hFree)

/-- The links of a slot are not part of what makes it fit. -/
theorem Txi.Fit.ctl {tp : Txi} {c : Ctl} (h : tp.Fit) (hActive : c.active = tp.active)
    (hRole : c.role = tp.role)
    (hMethod : c.method_type = tp.method_type) (hInvite : c.invite.isSome = tp.invite.isSome) :
    { tp with toCtl := c }.Fit where
  room := h.room
  last := h.last
  method := h.method.trans hMethod.symm
  policy hOn := h.policy (hActive.symm.trans hOn)
  client hOn hIs := by
    obtain ⟨hSome, hRecord⟩ := h.client (hActive.symm.trans hOn) (hRole.symm.trans hIs)
    exact ⟨hSome, fun hInv => hInvite.trans (hRecord (hMethod.symm.trans hInv))⟩
  record hRecord := by
    obtain ⟨hIs, hUri⟩ := h.record (hInvite.symm.trans hRecord)
    exact ⟨hMethod.trans hIs, hUri⟩
  idle hFree := h.idle (hActive.symm.trans hFree)

theorem Txi.reset_fit (tp : Txi) : tp.reset.Fit where
  room := rfl
  last _ h := by cases h
  method := rfl
  policy h := by cases h
  client h := by cases h
  record h := by cases h
  idle _ := rfl

/-- A slot with its outbound checkpoint taken. -/
def Txi.marked (tp : Txi) : Txi :=
  { tp with
    scratch := { tp.scratch with checkpoints := tp.scratch.checkpoints ++ [tp.scratch.alen] }
    checkpoint := some tp.scratch.checkpoints.length }

theorem Txi.marked_rolls {tp : Txi} (hRoom : tp.scratch.ncheckpoints = txNcheckpoints) : tp.marked.Rolls := by
  refine ⟨hRoom, fun cp hIs => ?_⟩
  obtain rfl := Option.some.inj hIs
  refine ⟨by simp [Txi.marked], ?_⟩
  simp [Txi.marked, Heap.base]

/-- The outbound checkpoint of a slot. -/
def takeCheckpoint : TxM Unit := do
  let cp ← onScratch .NOSPC Heap.checkpoint
  Op.modify fun tp => { tp with checkpoint := some cp }

theorem takeCheckpoint_run (tp : Txi) :
    takeCheckpoint.run tp = if tp.scratch.checkpoints.length < tp.scratch.ncheckpoints then
      some (.ok (), tp.marked) else none := by
  rw [takeCheckpoint, Op.run_bind]
  by_cases hRoom : tp.scratch.checkpoints.length < tp.scratch.ncheckpoints
  · have hHeap : Heap.checkpoint.run tp.scratch = some (.ok tp.scratch.checkpoints.length,
        { tp.scratch with checkpoints := tp.scratch.checkpoints ++ [tp.scratch.alen] }) := by
      simp only [Heap.checkpoint, Op.run_bind, Op.run_get, Op.andThen_ok, Op.run_assert, if_pos hRoom]
      rfl
    rw [if_pos hRoom, onScratch_ok.mpr ⟨_, hHeap, rfl⟩]
    rfl
  · have hHeap : Heap.checkpoint.run tp.scratch = none := by
      simp only [Heap.checkpoint, Op.run_bind, Op.run_get, Op.andThen_ok, Op.run_assert, if_neg hRoom]
      rfl
    have hSlot : (onScratch TmError.NOSPC Heap.checkpoint).run tp = none := by
      simp only [Op.run, onScratch, Op.failWith, Op.zoom] at hHeap ⊢
      rw [hHeap]
    rw [if_neg hRoom, hSlot]
    rfl

theorem takeCheckpoint_some {tp tp' : Txi} {r : Except TmError Unit}
    (hRun : takeCheckpoint.run tp = some (r, tp')) : r = .ok () ∧ tp' = tp.marked := by
  rw [takeCheckpoint_run] at hRun
  split at hRun
  · obtain ⟨rfl, rfl⟩ := Prod.mk.inj (Option.some.inj hRun)
    exact ⟨rfl, rfl⟩
  · cases hRun

/-! ## Filling a slot -/

theorem filling_initUacRequest (m : Mem) (request_idp : RequestId) (request_urip : Str) (mdp : Method) :
    Op.Keeps (Txi.Steady True) (initUacRequest m request_idp request_urip mdp) :=
  .bind (steady_copyUri _ _) fun _ => .bind (filling_modCache _) fun _ => .bind (steady_copyUri _ _) fun _ =>
    .bind (steady_onScratch (Heap.marked_uriParse _ _) _) fun _ => .bind (filling_modCache _) fun _ =>
      filling_modCache _

/-- A slot that has a request of the method, with a URI. -/
def Txi.Requests (method : Method) (tp : Txi) : Prop :=
  tp.cache.method_type = method ∧ tp.cache.uac.request_uri.isSome

theorem Txi.Requests.steady {method : Method} {tp tp' : Txi} (h : tp.Requests method)
    (hSteady : tp.Steady False tp') : tp'.Requests method := by
  obtain ⟨-, hCached, hUri⟩ := hSteady.request.resolve_left id
  exact ⟨hCached.trans h.1, hUri.trans h.2⟩

theorem initUacRequest_ok {m : Mem} {request_idp : RequestId} {request_urip : Str} {mdp : Method}
    {tp tp' : Txi} {u : Unit}
    (hRun : (initUacRequest m request_idp request_urip mdp).run tp = some (.ok u, tp')) :
    tp'.Requests mdp := by
  simp only [initUacRequest, modUacCache, modCache, Op.bind_ok, Op.modify_ok] at hRun
  obtain ⟨_, _, -, _, _, -, _, _, -, uri, _, -, _, _, rfl, rfl⟩ := hRun
  exact ⟨rfl, rfl⟩

theorem reserveUacSlot_ok {tm : Tm} {method : Method} {localp : Addr} {targetp : Option Addr} {tp tp' : Txi}
    {a : Addr × Addr} (hRun : (reserveUacSlot tm method localp targetp).run tp = some (.ok a, tp')) :
    ∃ tp₁, tp.Steady False tp₁ ∧ tp' = tp₁.marked := by
  simp only [reserveUacSlot, Op.bind_ok] at hRun
  obtain ⟨_, t₁, hDemand, _, t₂, hTarget, _, t₃, hLocal, _, t₄, hAlloc, cp, t₅, hMark, _,
    t₆, hSet, hEnd⟩ := hRun
  obtain ⟨-, rfl⟩ := Op.demand_ok.mp hDemand
  obtain ⟨-, rfl⟩ := Op.pure_ok.mp hEnd
  have hTargetOn : Txi.Steady False _ t₂ := steady_copyTargetAddr _ _ _ _ _ hTarget
  have hLocalOn : t₂.Steady False t₃ :=
    Op.Keeps.ite (fun _ => steady_copyTargetAddr _ _) (fun _ => .pure _) _ _ _ hLocal
  have hAllocOn : t₃.Steady False t₄ :=
    Op.Keeps.ite (fun _ => steady_onScratch (Heap.marked_alloc _) _) (fun _ => .pure _) _ _ _ hAlloc
  have hTake : takeCheckpoint.run t₄ = some (.ok (), t₆) := Op.bind_ok.mpr ⟨cp, t₅, hMark, hSet⟩
  exact ⟨t₄, IsTrans.trans _ _ _ (IsTrans.trans _ _ _ hTargetOn hLocalOn) hAllocOn,
    (takeCheckpoint_some hTake).2⟩

theorem Txi.Steady.filling {tp tp' : Txi} (h : tp.Steady False tp') : tp.Steady True tp' :=
  ⟨h.ctl, h.timers, h.checkpoint, h.heap, Or.inl trivial⟩

theorem fillUacTr_ok {tpp : NewUacTrParams} {mdp : Method} {i : Nat} {tm : Tm} {tp tp' : Txi}
    {a : Addr × Addr} (hRun : (fillUacTr tpp mdp i tm).run tp = some (.ok a, tp')) :
    ∃ tp₁, tp.Steady True tp₁ ∧ tp₁.Requests mdp ∧ tp' = tp₁.marked := by
  simp only [fillUacTr, Op.bind_ok] at hRun
  obtain ⟨_, t₁, hUri, _, t₂, hInit, _, t₃, hCall, _, t₄, hParties, _, t₅, hMod, hEnd⟩ := hRun
  obtain ⟨t₆, hReserve, rfl⟩ := reserveUacSlot_ok hEnd
  have hUriOn : tp.Steady True t₁ := steady_requestUriMaterialize _ _ _ _ _ hUri
  have hInitOn : t₁.Steady True t₂ := filling_initUacRequest _ _ _ _ _ _ _ hInit
  have hCallOn : t₂.Steady False t₃ := steady_prepareInitialCallId _ _ _ _ _ hCall
  have hPartiesOn : t₃.Steady False t₄ := steady_initUacPartiesByUsername _ _ _ _ _ _ hParties
  have hModOn : t₄.Steady False t₅ := Op.Keeps.of_run hMod (steady_modUacCache fun _ => rfl)
  have hRest : t₂.Steady False t₆ := IsTrans.trans _ _ _ hCallOn
    (IsTrans.trans _ _ _ hPartiesOn (IsTrans.trans _ _ _ hModOn hReserve))
  exact ⟨t₆, IsTrans.trans _ _ _ hUriOn (IsTrans.trans _ _ _ hInitOn hRest.filling),
    (initUacRequest_ok hInit).steady hRest, rfl⟩

theorem fillInDialog_ok {tpp : NewInDialogParams} {mdp : Method} {tm : Tm} {tp tp' : Txi}
    {a : Addr × Addr} (hRun : (fillInDialog tpp mdp tm).run tp = some (.ok a, tp')) :
    ∃ tp₁, tp.Steady True tp₁ ∧ tp₁.Requests mdp ∧ tp' = tp₁.marked := by
  simp only [fillInDialog, Op.bind_ok] at hRun
  obtain ⟨_, t₁, hInit, _, t₂, hParties, _, t₃, hRoutes, _, t₄, hMod, hEnd⟩ := hRun
  obtain ⟨t₅, hReserve, rfl⟩ := reserveUacSlot_ok hEnd
  have hInitOn : tp.Steady True t₁ := filling_initUacRequest _ _ _ _ _ _ _ hInit
  have hPartiesOn : t₁.Steady False t₂ := steady_initUacPartiesByUri _ _ _ _ _ _ hParties
  have hRoutesOn : t₂.Steady False t₃ := steady_onScratch (Heap.marked_copyRouteSet _ _) _ _ _ _ hRoutes
  have hModOn : t₃.Steady False t₄ := Op.Keeps.of_run hMod (steady_modUacCache fun _ => rfl)
  have hRest : t₁.Steady False t₅ := IsTrans.trans _ _ _ hPartiesOn
    (IsTrans.trans _ _ _ hRoutesOn (IsTrans.trans _ _ _ hModOn hReserve))
  exact ⟨t₅, IsTrans.trans _ _ _ hInitOn hRest.filling, (initUacRequest_ok hInit).steady hRest, rfl⟩

theorem filling_cloneCache (m : Mem) (srcp : Txi) (method : Method) :
    Op.Keeps (Txi.Steady True) (cloneCache m srcp method) :=
  .bind (steady_copyUri _ _) fun _ => .bind (filling_modCache _) fun _ =>
    .bind (filling_copyParsedUri _ _) fun _ => .bind (steady_copyUri _ _) fun _ =>
      .bind (filling_modCache _) fun _ => .bind (steady_copyUri _ _) fun _ =>
        .bind (filling_modCache _) fun _ =>
        .bind (steady_copyUri _ _) fun _ => .bind (filling_modCache _) fun _ =>
          .bind (filling_modCache _) fun _ => .bind (steady_copyUri _ _) fun _ =>
            .bind (filling_modCache _) fun _ =>
              .bind (.ite (fun _ => steady_copyUri _ _) fun _ => .pure _) fun _ =>
                .bind (filling_modCache _) fun _ => filling_modCache _

theorem copyParsedUri_ok {m : Mem} {srcp : Option Uri} {tp tp' : Txi} {u : Unit}
    (hRun : (copyParsedUri m srcp).run tp = some (.ok u, tp')) :
    srcp.isSome ∧ tp'.cache.uac.request_uri.isSome := by
  simp only [copyParsedUri, modUacCache, modCache, Op.bind_ok, Op.modify_ok, Op.demand_ok] at hRun
  obtain ⟨_, _, ⟨rfl, -⟩, _, _, -, _, _, -, rfl⟩ := hRun
  exact ⟨rfl, rfl⟩

theorem cloneCache_ok {m : Mem} {srcp : Txi} {method : Method} {tp tp' : Txi} {u : Unit}
    (hRun : (cloneCache m srcp method).run tp = some (.ok u, tp')) :
    srcp.cache.uac.request_uri.isSome ∧ tp'.Requests method := by
  simp only [cloneCache, Op.bind_ok] at hRun
  obtain ⟨_, _, -, _, _, -, _, t₁, hUri, _, t₂, hFrom, _, t₃, hFromSet, _, t₄, hTo, _, t₅,
    hToSet, _, t₆, hContact,
    _, t₇, hContactSet, _, t₈, hMethod, _, t₉, hTag, _, t₁₀, hTagSet, _, t₁₁, hBranch, _, t₁₂,
      hBranchSet, hEnd⟩ := hRun
  obtain ⟨hSome, hHas⟩ := copyParsedUri_ok hUri
  have hThen : t₁.Steady False t₇ := by
    refine IsTrans.trans _ _ _ (steady_copyUri _ _ _ _ _ hFrom) (IsTrans.trans _ _ _
      (Op.Keeps.of_run hFromSet (steady_modUacCache fun _ => rfl)) (IsTrans.trans _ _ _
        (steady_copyUri _ _ _ _ _ hTo) (IsTrans.trans _ _ _
          (Op.Keeps.of_run hToSet (steady_modUacCache fun _ => rfl)) (IsTrans.trans _ _ _
            (steady_copyUri _ _ _ _ _ hContact)
            (Op.Keeps.of_run hContactSet (steady_modUacCache fun _ => rfl))))))
  obtain ⟨-, -, hKept⟩ := hThen.request.resolve_left id
  have hRequests : t₈.Requests method := by
    obtain rfl := Op.modify_ok.mp hMethod
    exact ⟨rfl, hKept.trans hHas⟩
  have hRest : t₈.Steady False tp' := by
    refine IsTrans.trans _ _ _ (steady_copyUri _ _ _ _ _ hTag) (IsTrans.trans _ _ _
      (Op.Keeps.of_run hTagSet (steady_modCache (fun _ => rfl) fun _ => rfl)) (IsTrans.trans _ _ _
        (Op.Keeps.of_run hBranch (.ite (fun _ => steady_copyUri _ _) fun _ => .pure _)) (IsTrans.trans _ _ _
          (Op.Keeps.of_run hBranchSet (steady_modCache (fun _ => rfl) fun _ => rfl))
          (Op.Keeps.of_run hEnd (steady_modUacCache fun _ => rfl)))))
  exact ⟨hSome, hRequests.steady hRest⟩

/-- A cloned slot once its identity and its timers are put in. -/
theorem cloneRest_ok {m : Mem} {srcp tp tp' : Txi} {parent_index : Nat} {method : Method} {u : Unit}
    (hRun : (cloneRest m srcp parent_index method).run tp = some (.ok u, tp')) :
    ∃ tp₁ id,
      ({ tp with toCtl := Ctl.cloned srcp.toCtl parent_index method tp.toCtl } : Txi).Steady False tp₁ ∧
      tp' = { tp₁.marked with timers := srcp.timers, id, method_type := tp₁.cache.method_type } := by
  rw [cloneRest, Op.run_bind, modCtl, Op.run_modify, Op.andThen_ok] at hRun
  simp only [Op.bind_ok] at hRun
  obtain ⟨peer, t₁, hPeer, _, t₂, hSet, cp, t₃, hMark, hEnd⟩ := hRun
  have hPeerOn : Txi.Steady False _ t₁ := steady_copyTargetAddr _ _ _ _ _ hPeer
  have hSetOn : t₁.Steady False t₂ := by
    obtain rfl := Op.modify_ok.mp hSet
    exact ⟨⟨rfl, rfl, rfl, rfl, rfl⟩, rfl, rfl, Std.Refl.refl _, Or.inr ⟨Or.inl rfl, rfl, rfl⟩⟩
  have hTake : takeCheckpoint.run t₂ = some (.ok (), { t₃ with checkpoint := some cp }) :=
    Op.bind_ok.mpr ⟨cp, t₃, hMark, rfl⟩
  have hMarked := (takeCheckpoint_some hTake).2
  obtain rfl := Op.modify_ok.mp hEnd
  refine ⟨t₂, { t₃.id with call_id := t₃.cache.call_id, cseq := t₃.cache.cseq.val },
    IsTrans.trans _ _ _ hPeerOn hSetOn, ?_⟩
  rw [← hMarked]
  obtain ⟨hp, -, rfl⟩ := onScratch_ok.mp hMark
  rfl

theorem steady_uasCopyHdrs (m : Mem) (srcp : List MsgHdr) :
    Op.Keeps (Txi.Steady True) (uasCopyHdrs m srcp) := by
  cases srcp with
  | nil => exact .pure _
  | cons h hs =>
    exact .bind (steady_onScratch (Heap.marked_alloc _) _) fun _ =>
      steady_onScratch (Heap.marked_appendAll _ _) _

theorem steady_uasCopyNameaddrWithoutParam (m : Mem) (nap : NameAddr) (skip : Bytes) :
    Op.Keeps (Txi.Steady True) (uasCopyNameaddrWithoutParam m nap skip) :=
  .bind .get fun _ => .bind (steady_onScratch (Heap.marked_build _ _) _) fun _ =>
    .bind (steady_onScratch (Heap.marked_alloc _) _) fun _ => .pure _

theorem steady_uasCacheRequest (m : Mem) (reqp : Msg) (ruri : Str) (tid : Tid) :
    Op.Keeps (Txi.Steady True) (uasCacheRequest m reqp ruri tid) := by
  unfold uasCacheRequest
  refine .bind (.require _ _) fun _ => .bind (.assert _) fun _ => .bind (.demand _) fun _ => ?_
  refine .bind (.demand _) fun _ => .bind (.demand _) fun _ => .bind (.demand _) fun _ => ?_
  refine .bind (.demand _) fun _ => .bind (.orElse _ _) fun _ => ?_
  refine .bind (steady_copyUri _ _) fun _ => .bind (steady_modUasCache _) fun _ => ?_
  refine .bind (steady_uasCopyNameaddrWithoutParam _ _ _) fun _ => .bind (steady_modUasCache _) fun _ => ?_
  refine .bind (steady_copyUri _ _) fun _ => .bind (steady_modUasCache _) fun _ => ?_
  refine .bind (.orElse _ _) fun _ => .bind (steady_modUasCache _) fun _ => ?_
  refine .bind (.orElse _ _) fun _ => .bind (steady_modUasCache _) fun _ => ?_
  refine .bind (steady_uasCopyHdrs _ _) fun _ => .bind (steady_modUasCache _) fun _ => ?_
  refine .bind (.orElse _ _) fun _ => .bind (filling_modCache _) fun _ => ?_
  refine .bind (steady_uasCopyHdrs _ _) fun _ => .bind (steady_modUasCache _) fun _ => .bind ?_ fun _ =>
    .bind (steady_modUasCache _) fun _ => .bind (.orElse _ _) fun _ => filling_modCache _
  split
  · exact steady_onScratch (Heap.marked_append _ _) _
  · exact .pure _

theorem steady_uasPrepareLocalTag (tm : Tm) (tx_index : Nat) (cseq : UInt32) (method_type : Method) :
    Op.Keeps (Txi.Steady True) (uasPrepareLocalTag tm tx_index cseq method_type) := by
  refine .bind ?_ fun _ => filling_modCache _
  cases tm.id_policy with
  | none => exact steady_onScratch (Heap.marked_sprintf _) _
  | some policy => exact .bind (steady_callIdPolicy _ _) fun _ => .bind (.require _ _) fun _ => .pure _

theorem steady_uasFormatLocalContactUri (m : Mem) (localp : Addr) :
    Op.Keeps (Txi.Steady True) (uasFormatLocalContactUri m localp) :=
  .bind (steady_text _ _) fun _ => .bind (.orElse _ _) fun _ => steady_onScratch (Heap.marked_sprintf _) _

theorem fillUasTr_ok {tpp : NewUasTrParams} {method : Method} {ruri : Str} {tid : Tid} {i : Nat} {tm : Tm}
    {tp tp' : Txi} {u : Unit} (hRun : (fillUasTr tpp method ruri tid i tm).run tp = some (.ok u, tp')) :
    ∃ tp₁, tp.Steady True tp₁ ∧ tp' = tp₁.marked := by
  simp only [fillUasTr, Op.bind_ok] at hRun
  obtain ⟨_, t₁, hCallbacks, _, t₂, hMethod, _, t₃, hCall, _, t₄, hCallSet, _, t₅, hCache,
    _, t₆, hContact, _, t₇,
    hContactSet, _, t₈, hTag, _, t₉, hPeer, _, t₁₀, hPeerSet, _, t₁₁, hLocal, _, t₁₂,
      hLocalSet, cp, t₁₃, hMark,
    hEnd⟩ := hRun
  have hPut : ∀ (tp : Txi) (peer local_ : Addr), tp.Steady True { tp with peer, local_ } :=
    fun _ _ _ => ⟨Std.Refl.refl _, rfl, rfl, Std.Refl.refl _, Or.inl trivial⟩
  have hTake : takeCheckpoint.run t₁₂ = some (.ok u, tp') := Op.bind_ok.mpr ⟨cp, t₁₃, hMark, hEnd⟩
  refine ⟨t₁₂, ?_, (takeCheckpoint_some hTake).2⟩
  have hFirst : tp.Steady True t₄ := IsTrans.trans _ _ _
    (Op.Keeps.of_run hCallbacks (steady_modCtl fun _ => ⟨⟨rfl, rfl, rfl, rfl, rfl⟩, rfl⟩))
    (IsTrans.trans _ _ _ (filling_modCache _ _ _ _ hMethod) (IsTrans.trans _ _ _
      (Op.Keeps.of_run hCall (steady_onScratch (Heap.marked_append _ _) _))
      (filling_modCache _ _ _ _ hCallSet)))
  have hThen : t₄.Steady True t₈ := IsTrans.trans _ _ _ (steady_uasCacheRequest _ _ _ _ _ _ _ hCache)
    (IsTrans.trans _ _ _ (steady_uasFormatLocalContactUri _ _ _ _ _ hContact) (IsTrans.trans _ _ _
      (Op.Keeps.of_run hContactSet (steady_modUasCache _)) (steady_uasPrepareLocalTag _ _ _ _ _ _ _ hTag)))
  have hPeers : t₈.Steady True t₁₂ := by
    have hSetPeer : t₉.Steady True t₁₀ := Op.modify_ok.mp hPeerSet ▸ hPut t₉ _ _
    have hSetLocal : t₁₁.Steady True t₁₂ := Op.modify_ok.mp hLocalSet ▸ hPut t₁₁ _ _
    exact IsTrans.trans _ _ _ (steady_copyTargetAddr _ _ _ _ _ hPeer) (IsTrans.trans _ _ _ hSetPeer
      (IsTrans.trans _ _ _ (steady_copyTargetAddr _ _ _ _ _ hLocal) hSetLocal))
  exact IsTrans.trans _ _ _ hFirst (IsTrans.trans _ _ _ hThen hPeers)

/-! ## The table -/

/-- What every step finds and leaves of the table. -/
structure Tm.Fit (tm : Tm) : Prop where
  slots : ∀ j, (tm.tx j).Fit
  parent : ∀ j, (tm.tx j).parent_index ≠ some j
  invite : ∀ j, (tm.tx j).method_type = .INVITE → (tm.tx j).parent_index = none
  child : ∀ j c, (tm.tx j).child_index = some c → c < tm.max_transactions

namespace Tm.Fit

variable {tm tm' : Tm} {i : Nat} {tp : Txi}

/-- One slot changed. -/
theorem put (h : tm.Fit) (hTx : tm'.tx = (tm.set i tp).tx) (hMax : tm'.max_transactions = tm.max_transactions)
    (hFit : tp.Fit) (hParent : tp.parent_index ≠ some i)
    (hInvite : tp.method_type = .INVITE → tp.parent_index = none)
    (hChild : ∀ c, tp.child_index = some c → c < tm.max_transactions) : tm'.Fit := by
  have hHere : tm'.tx i = tp := by rw [hTx, Tm.set_same]
  have hThere : ∀ j, j ≠ i → tm'.tx j = tm.tx j := fun j hj => by rw [hTx, Tm.set_other _ _ hj]
  refine ⟨fun j => ?_, fun j => ?_, fun j => ?_, fun j c hLink => ?_⟩
  · by_cases hj : j = i
    · rw [hj, hHere]
      exact hFit
    · rw [hThere j hj]
      exact h.slots j
  · by_cases hj : j = i
    · rw [hj, hHere]
      exact hParent
    · rw [hThere j hj]
      exact h.parent j
  · by_cases hj : j = i
    · rw [hj, hHere]
      exact hInvite
    · rw [hThere j hj]
      exact h.invite j
  · rw [hMax]
    by_cases hj : j = i
    · rw [hj, hHere] at hLink
      exact hChild c hLink
    · rw [hThere j hj] at hLink
      exact h.child j c hLink

/-- Work on one slot. -/
theorem steady (h : tm.Fit) (hSteady : (tm.tx i).Steady False tp) : (tm.set i tp).Fit := by
  refine h.put rfl rfl ((h.slots i).steady hSteady) ?_ ?_ fun c hLink => ?_
  · rw [hSteady.ctl.parent]
    exact h.parent i
  · rw [hSteady.ctl.parent, (h.slots i).method_eq hSteady]
    exact h.invite i
  · rw [hSteady.ctl.child] at hLink
    exact h.child i c hLink

/-- A slot cleared. -/
theorem cleared (h : tm.Fit) (hTx : tm'.tx = (tm.set i tp.reset).tx)
    (hMax : tm'.max_transactions = tm.max_transactions) : tm'.Fit :=
  h.put hTx hMax tp.reset_fit (fun h => by cases h) (fun _ => rfl) fun _ h => by cases h

/-- Other links from a slot. -/
theorem relink {c : Ctl} (h : tm.Fit) (hActive : c.active = (tm.tx i).active)
    (hRole : c.role = (tm.tx i).role)
    (hMethod : c.method_type = (tm.tx i).method_type) (hRecord : c.invite.isSome = (tm.tx i).invite.isSome)
    (hParent : c.parent_index ≠ some i) (hInvite : c.method_type = .INVITE → c.parent_index = none)
    (hChild : ∀ k, c.child_index = some k → k < tm.max_transactions) :
    (tm.set i { tm.tx i with toCtl := c }).Fit :=
  h.put rfl rfl ((h.slots i).ctl hActive hRole hMethod hRecord) hParent hInvite hChild

theorem drop (h : tm.Fit) (index : Nat) : (tm.drop index).Fit := by
  have hMax := (Tm.drop_frame tm index).1
  refine ⟨fun j => ?_, fun j => ?_, fun j => ?_, fun j c hLink => ?_⟩
  · rw [Tm.drop_tx]
    split
    · exact (tm.tx j).reset_fit
    · rw [Tm.dropLinked]
      split
      · exact (h.slots j).ctl rfl rfl rfl rfl
      · exact h.slots j
  · rw [Tm.drop_tx]
    split
    · exact fun h => by cases h
    · rw [Tm.dropLinked]
      split
      · exact h.parent j
      · exact h.parent j
  · rw [Tm.drop_tx]
    split
    · exact fun _ => rfl
    · rw [Tm.dropLinked]
      split
      · exact h.invite j
      · exact h.invite j
  · rw [hMax]
    rw [Tm.drop_tx] at hLink
    split at hLink
    · cases hLink
    · rw [Tm.dropLinked] at hLink
      split at hLink
      · cases hLink
      · exact h.child j c hLink

end Tm.Fit

/-! ## Slots taken -/

theorem fit_onSlot {α : Type} {i : Nat} {x : Tm → TxM α} (hx : ∀ tm, Op.Keeps (Txi.Steady False) (x tm)) :
    Op.Keeps (Op.Implies Tm.Fit) (onSlot i x) := by
  intro tm r tm' hRun hFit
  obtain ⟨tp, hPart, rfl⟩ := onSlot_some hRun
  exact hFit.steady (hx tm _ _ _ hPart)

theorem fit_dropTransaction (index : Nat) : Op.Keeps (Op.Implies Tm.Fit) (dropTransaction index) :=
  .bind .get fun _ => .bind (.require _ _) fun _ => .bind (.require _ _) fun _ =>
    .modify fun _ h => h.drop index

theorem fit_allocSlot : Op.Keeps (Op.Implies Tm.Fit) allocSlot := by
  have hClear : ∀ i, Op.Keeps (Op.Implies Tm.Fit)
      (Op.modify (ε := TmError) fun tm : Tm => tm.set i (tm.tx i).reset) :=
    fun i => .modify fun _ h => h.cleared rfl rfl
  refine .bind .get fun tm => ?_
  split
  · exact .bind (hClear _) fun _ => .pure _
  · exact .bind (.failWith (fit_dropTransaction _) _) fun _ => .bind (hClear _) fun _ => .pure _
  · exact .fail _

/-- A slot of the table that was cleared. -/
def Tm.Cleared (i : Nat) (tm : Tm) : Prop := i < tm.max_transactions ∧ ∃ tp : Txi, tm.tx i = tp.reset

theorem allocSlot_cleared {tm tm' : Tm} {i : Nat} (hRun : allocSlot.run tm = some (.ok i, tm')) :
    tm'.Cleared i := by
  obtain ⟨k, hk, -, hIs⟩ | ⟨-, ⟨v, hVictim, hIs⟩ | ⟨-, hIs⟩⟩ := allocSlot_cases tm
  · obtain ⟨hSame, rfl⟩ := Prod.mk.inj (Option.some.inj (hRun.symm.trans hIs))
    obtain rfl := Except.ok.inj hSame
    exact ⟨hk, _, Tm.set_same _ _ _⟩
  · obtain ⟨hSame, rfl⟩ := Prod.mk.inj (Option.some.inj (hRun.symm.trans hIs))
    obtain rfl := Except.ok.inj hSame
    refine ⟨?_, _, Tm.set_same _ _ _⟩
    rw [Tm.set_max, (Tm.drop_frame tm i).1]
    exact hVictim.1
  · rw [hIs] at hRun
    cases hRun

/-! ## Transactions made -/

/-- What fills a slot, or clears it where it fails. -/
def Begins {α : Type} (i : Nat) (Q : Tm → α → Txi → Prop) (x : TmM α) : Prop :=
  ∀ tm r tm', x.run tm = some (r, tm') →
    (∃ e tp, r = .error e ∧ tm' = tm.set i tp ∧ ∃ tp₁ : Txi, tp = tp₁.reset) ∨
      ∃ a tp, r = .ok a ∧ tm' = tm.set i tp ∧ Q tm a tp

theorem begins_filling {α : Type} {i : Nat} {Q : Tm → α → Txi → Prop} {x : Tm → TxM α}
    (hx : ∀ tm a tp, (x tm).run (tm.tx i) = some (.ok a, tp) → Q tm a tp) : Begins i Q (filling i x) := by
  intro tm r tm' hRun
  obtain ⟨tp, hPart, rfl⟩ := onSlot_some hRun
  cases r with
  | error e =>
    obtain ⟨tp₁, -, rfl⟩ := Op.cleanup_error.mp hPart
    exact Or.inl ⟨e, _, rfl, rfl, tp₁, rfl⟩
  | ok a => exact Or.inr ⟨a, tp, rfl, rfl, hx tm a tp (Op.cleanup_ok.mp hPart)⟩

theorem Begins.failWith {α : Type} {i : Nat} {Q : Tm → α → Txi → Prop} {x : TmM α} (hx : Begins i Q x)
    (e : TmError) : Begins i Q (Op.failWith e x) := by
  intro tm r tm' hRun
  cases r with
  | error e' =>
    rw [Op.run_failWith] at hRun
    split at hRun
    · cases hRun
    · rename_i hFirst
      obtain ⟨-, rfl⟩ := Prod.mk.inj (Option.some.inj hRun)
      obtain ⟨_, tp, -, hIs, hReset⟩ | ⟨a, tp, hNot, -⟩ := hx _ _ _ hFirst
      · exact Or.inl ⟨e', tp, rfl, hIs, hReset⟩
      · cases hNot
    · cases hRun
  | ok a =>
    obtain ⟨_, tp, hNot, -⟩ | ⟨b, tp, hb, hIs, hQ⟩ := hx _ _ _ (Op.failWith_ok.mp hRun)
    · cases hNot
    · exact Or.inr ⟨b, tp, hb, hIs, hQ⟩

/-- A slot filled, and what follows. -/
theorem fit_begin {α β : Type} {i : Nat} {P : Tm → Prop} {Q : Tm → α → Txi → Prop} {x : TmM α} {k : α → TmM β}
    (hx : Begins i Q x)
    (hk : ∀ tm a tp r tm', tm.Fit → P tm → Q tm a tp → (k a).run (tm.set i tp) = some (r, tm') → tm'.Fit) :
    Op.KeepsFrom P (Op.Implies Tm.Fit) (x >>= k) := by
  intro tm r tm' hP hRun hFit
  rw [Op.run_bind] at hRun
  cases hFirst : x.run tm with
  | none =>
    rw [hFirst] at hRun
    cases hRun
  | some out =>
    obtain ⟨r₁, tm₁⟩ := out
    rw [hFirst] at hRun
    obtain ⟨e, tp, rfl, rfl, tp₁, rfl⟩ | ⟨a, tp, rfl, rfl, hQ⟩ := hx _ _ _ hFirst
    · obtain ⟨-, rfl⟩ := Prod.mk.inj (Option.some.inj hRun)
      exact hFit.cleared rfl rfl
    · exact hk tm a tp r tm' hFit hP hQ hRun

theorem fit_leaking {α : Type} {i : Nat} {x : TmM α} (hx : Op.Keeps (Op.Implies Tm.Fit) x) :
    Op.Keeps (Op.Implies Tm.Fit) (leaking i x) :=
  .cleanup hx fun _ h => h.cleared rfl rfl

theorem Txi.fit_begun {tp₁ tp : Txi} (hRoom : tp₁.scratch.ncheckpoints = txNcheckpoints)
    (hScratch : tp.scratch = tp₁.marked.scratch) (hCheckpoint : tp.checkpoint = tp₁.marked.checkpoint)
    (hMethod : tp.cache.method_type = tp.method_type) (hActive : tp.active = true)
    (hPolicy : tp.timers.t1_ms ≠ 0 ∧ tp.timers.t2_ms ≠ 0)
    (hClient : tp.role = .UAC → tp.method_type = .INVITE → tp.invite.isSome)
    (hRecord : tp.invite.isSome → tp.method_type = .INVITE ∧ tp.cache.uac.request_uri.isSome) : tp.Fit := by
  have hRolls := Txi.marked_rolls hRoom
  refine ⟨⟨hScratch ▸ hRolls.room, fun cp hIs => ?_⟩, hMethod, fun _ => hPolicy, fun _ hRole => ?_, hRecord,
    fun hFree => ?_⟩
  · rw [hScratch]
    exact hRolls.last cp (hCheckpoint ▸ hIs)
  · exact ⟨hCheckpoint ▸ rfl, hClient hRole⟩
  · rw [hActive] at hFree
    cases hFree

/-- A slot filled with a request, up to its activation. -/
def Txi.Prepared (mdp : Method) (tp tp' : Txi) : Prop :=
  ∃ tp₁, tp.Steady True tp₁ ∧ tp₁.Requests mdp ∧ tp' = tp₁.marked

section

variable {tm tm' : Tm} {i : Nat}

theorem Tm.Cleared.filled {tp₁ : Txi} (h : tm.Cleared i) (hSteady : (tm.tx i).Steady True tp₁) :
    tp₁.scratch.ncheckpoints = txNcheckpoints ∧ tp₁.parent_index = none ∧ tp₁.child_index = none ∧
      tp₁.invite.isSome = false := by
  obtain ⟨-, tp, hReset⟩ := h
  refine ⟨hSteady.heap.ncheckpoints.trans ?_, hSteady.ctl.parent.trans ?_, hSteady.ctl.child.trans ?_,
    hSteady.ctl.invite.trans ?_⟩
  all_goals
    rw [hReset]
    rfl

theorem Tm.set_enter (tm : Tm) (i : Nat) (tp tp' : Txi) :
    ((tm.set i tp).enter i tp').tx = (tm.set i tp').tx := by
  rw [← Tm.set_set tm i tp tp']
  rfl

theorem fit_activateUacSlot {tp : Txi} {mdp : Method} {state : TxState} {cseq : UInt32} {target local_ : Addr}
    {callbacks : UacCallbacks} {timers : Option TimerPolicy} {r : Except TmError Unit} (hFit : tm.Fit)
    (hCleared : tm.Cleared i) (hFilled : (tm.tx i).Prepared mdp tp)
    (hRun : (activateUacSlot i state cseq target local_ callbacks (.resolve timers)).run (tm.set i tp) =
      some (r, tm')) : tm'.Fit := by
  obtain ⟨tp₁, hSteady, hRequests, rfl⟩ := hFilled
  obtain ⟨hRoom, hParent, hChild, -⟩ := hCleared.filled hSteady
  rw [activateUacSlot, Op.run_bind, Op.run_modify, Op.andThen_ok] at hRun
  obtain ⟨tp, hPart, rfl⟩ := onSlot_some hRun
  obtain ⟨-, rfl⟩ := Prod.mk.inj (Option.some.inj hPart)
  have hEntered : (Tm.activate i 0 (tm.set i tp₁.marked)).tx i =
      { tp₁.marked with active := true, born := tm.serial, created_for := 0 } := by
    rw [Tm.activate, Tm.set_same, Tm.set_same, Tm.set_serial]
  rw [Tm.activate_set, hEntered]
  refine hFit.put (i := i) (Tm.set_enter _ _ _ _) rfl (Txi.fit_begun hRoom rfl rfl rfl rfl
      ⟨TimerPolicy.resolve_t1 _, TimerPolicy.resolve_t2 _⟩ (fun _ hIs => ?_) fun hHas => ?_)
    (fun h => ?_) (fun _ => hParent) fun c hLink => ?_
  · have hHas : (if tp₁.cache.method_type = .INVITE then some ({} : UacInvite) else none).isSome := by
      have hMethod : tp₁.cache.method_type = .INVITE := hIs
      rw [if_pos hMethod]
      rfl
    exact hHas
  · have hRecord : (if tp₁.cache.method_type = .INVITE then some ({} : UacInvite) else none).isSome := hHas
    split at hRecord
    · exact ⟨‹_›, hRequests.2⟩
    · cases hRecord
  · cases hParent.symm.trans h
  · cases hChild.symm.trans hLink

end

theorem fit_buildRequest (i : Nat) (bp : BuildRequestParams) :
    Op.Keeps (Op.Implies Tm.Fit) (onSlot i fun tm => buildRequest tm i bp) :=
  fit_onSlot fun tm => steady_buildRequest tm i bp

theorem fit_lookupUacMethod (method_type : UInt8) (in_dialog : Bool) :
    Op.Keeps (Op.Implies Tm.Fit) (lookupUacMethod method_type in_dialog) := acts_lookupUacMethod _ _

theorem fit_newUacTr (tpp : NewUacTrParams) : Op.Keeps (Op.Implies Tm.Fit) (newUacTr tpp) := by
  refine .bind (fit_lookupUacMethod _ _) fun mdp => Op.KeepsFrom.always ?_
  refine .seq (fun i => Tm.Cleared i) fit_allocSlot.from (fun _ _ _ _ => allocSlot_cleared) fun i => ?_
  have hBegins : Begins i (fun tm (_ : Addr × Addr) tp => (tm.tx i).Prepared mdp tp)
      (filling i (fillUacTr tpp mdp i)) := begins_filling fun tm a tp => fillUacTr_ok
  refine fit_begin hBegins fun tm addrs tp r tm' hFit hCleared hFilled hRun => ?_
  refine Op.holds_bind hRun (fun _ _ => fit_activateUacSlot hFit hCleared hFilled) fun _ => ?_
  exact .bind (fit_leaking (fit_buildRequest _ _)) fun _ => .pure _

theorem fit_newInDialogTransaction (tpp : NewInDialogParams) :
    Op.Keeps (Op.Implies Tm.Fit) (newInDialogTransaction tpp) := by
  refine .bind (.assert _) fun _ => .bind (.require _ _) fun _ =>
    .bind (fit_lookupUacMethod _ _) fun mdp => Op.KeepsFrom.always ?_
  refine .seq (fun i => Tm.Cleared i) fit_allocSlot.from (fun _ _ _ _ => allocSlot_cleared) fun i => ?_
  have hBegins : Begins i (fun tm (_ : Addr × Addr) tp => (tm.tx i).Prepared mdp tp)
      (filling i (fillInDialog tpp mdp)) := begins_filling fun tm a tp => fillInDialog_ok
  refine fit_begin (hBegins.failWith _) fun tm addrs tp r tm' hFit hCleared hFilled hRun => ?_
  refine Op.holds_bind hRun (fun _ _ => fit_activateUacSlot hFit hCleared hFilled) fun _ => ?_
  exact .bind (fit_leaking (.failWith (fit_onSlot fun tm => steady_prepareIds tm i) _)) fun _ => .pure _

/-! ## Clones -/

/-- A cloned slot filled, up to its activation. -/
structure Txi.Cloned (tp : Txi) (method : Method) (srcp tp' : Txi) : Prop where
  steady : tp.Steady True tp'
  source : srcp.cache.uac.request_uri.isSome
  requests : tp'.Requests method

theorem fit_cloneRest {tm tm' : Tm} {child_index parent_index : Nat} {method : Method} {srcp tp : Txi}
    {r : Except TmError Unit} (hFit : tm.Fit) (hCleared : tm.Cleared child_index) (hOther : method ≠ .INVITE)
    (hSource : srcp = tm.tx parent_index) (hCloned : (tm.tx child_index).Cloned method srcp tp)
    (hRun : (leaking child_index (onSlot child_index fun tm => cloneRest tm.mem srcp parent_index method)).run
      ((tm.set child_index tp).activate child_index srcp.born) = some (r, tm')) : tm'.Fit := by
  obtain ⟨hSteady, hHas, hRequests⟩ := hCloned
  obtain ⟨hRoom, -, hChild, hPlain⟩ := hCleared.filled hSteady
  have hActive : srcp.active = true := by
    rw [hSource] at hHas ⊢
    exact by_contra fun h => by
      rw [(hFit.slots _).idle (Bool.eq_false_iff.mpr h)] at hHas
      cases hHas
  have hDiffer : parent_index ≠ child_index := by
    rintro rfl
    obtain ⟨-, tp, hReset⟩ := hCleared
    rw [hSource, hReset] at hHas
    cases hHas
  have hPolicy := (hSource ▸ hFit.slots parent_index : srcp.Fit).policy hActive
  have hEntered : ((tm.set child_index tp).activate child_index srcp.born).tx child_index =
      { tp with active := true, born := tm.serial, created_for := srcp.born } := by
    rw [Tm.activate, Tm.set_same, Tm.set_same, Tm.set_serial]
  cases r with
  | error e =>
    obtain ⟨tm₁, hFirst, rfl⟩ := Op.cleanup_error.mp hRun
    obtain ⟨tp₁, -, rfl⟩ := onSlot_some hFirst
    have hTx : ((((tm.set child_index tp).activate child_index srcp.born).set child_index tp₁).set child_index
        tp₁.reset).tx = (tm.set child_index tp₁.reset).tx := by
      rw [Tm.set_set, Tm.activate_set, Tm.set_enter]
    rw [Tm.set_same]
    exact hFit.cleared hTx rfl
  | ok u =>
    obtain ⟨tp₁, hPart, rfl⟩ := onSlot_ok.mp (Op.cleanup_ok.mp hRun)
    rw [hEntered] at hPart
    obtain ⟨tp₂, id, hRest, rfl⟩ := cloneRest_ok hPart
    rw [Tm.activate_set]
    have hDone : tp₂.Requests method := by
      refine Txi.Requests.steady ?_ hRest
      exact hRequests
    have hNoInvite : tp₂.invite.isSome = false := by
      refine hRest.ctl.invite.trans ?_
      exact hPlain
    refine hFit.put (i := child_index) (Tm.set_enter _ _ _ _) rfl
      (Txi.fit_begun (hRest.heap.ncheckpoints.trans hRoom) rfl rfl rfl hRest.ctl.active hPolicy
        (fun _ hIs => absurd (hDone.1.symm.trans hIs) hOther) fun hHas => ?_)
      (fun h => ?_) (fun hIs => absurd (hDone.1.symm.trans hIs) hOther) fun c hLink => ?_
    · cases hNoInvite.symm.trans hHas
    · have hParent : tp₂.parent_index = if method = .ACK then some parent_index else none := hRest.ctl.parent
      have hOwn : tp₂.parent_index = some child_index := h
      rw [hOwn] at hParent
      split at hParent
      · exact hDiffer (Option.some.inj hParent).symm
      · cases hParent
    · have hKept : tp₂.child_index = tp.child_index := hRest.ctl.child
      cases (hKept.trans hChild).symm.trans hLink

theorem fit_cloneInto (child_index parent_index : Nat) {method : Method} (hOther : method ≠ .INVITE) :
    Op.KeepsFrom (Tm.Cleared child_index) (Op.Implies Tm.Fit)
    (cloneInto child_index parent_index method) := by
  refine .getBind fun tm hCleared => ?_
  have hBegins : Begins child_index (fun t (_ : Unit) tp => (t.tx child_index).Cloned method
    (tm.tx parent_index) tp)
      (filling child_index fun t => cloneCache t.mem (tm.tx parent_index) method) :=
    begins_filling fun t a tp hRun => ⟨filling_cloneCache _ _ _ _ _ _ hRun, (cloneCache_ok hRun).1,
      (cloneCache_ok hRun).2⟩
  refine fit_begin hBegins ?_
  rintro t a tp r tm' hFit rfl hCloned hRun
  rw [Op.run_bind, Op.run_modify, Op.andThen_ok] at hRun
  exact fit_cloneRest hFit hCleared hOther rfl hCloned hRun

theorem fit_cloneUacInvite (parent_index : Nat) {method : Method} (hOther : method ≠ .INVITE) :
    Op.Keeps (Op.Implies Tm.Fit) (cloneUacInvite parent_index method) := by
  refine Op.KeepsFrom.always ?_
  refine .seq (fun i => Tm.Cleared i) fit_allocSlot.from (fun _ _ _ _ => allocSlot_cleared) fun i => ?_
  exact .seq (fun _ _ => True) (fit_cloneInto i parent_index hOther) (fun _ _ _ _ _ => trivial) fun _ =>
    (Op.Keeps.pure _).from

end Microsippy
