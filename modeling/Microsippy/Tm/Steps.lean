import Microsippy.Tm.Acts

/-! # What the functions do to the slots

Every function of the manager is a sequence of acts.
-/

namespace Microsippy

set_option autoImplicit false

variable {undone : Undone} {allow : Allow}

/-! ## Heaps -/

theorem slot_of_grows {α : Type} {x : HeapM α} (h : Op.Keeps Heap.Grows x) :
    Op.Keeps Heap.SameSlot x := h.mono fun _ _ hGrows => hGrows.slot

theorem slot_rollback (cp : Nat) : Op.Keeps Heap.SameSlot (Heap.rollback cp) :=
  .bind .get fun _ => .bind (.assert _) fun _ => .bind (.assert _) fun _ =>
    .bind (.assert _) fun _ => .modify fun _ => rfl

theorem slot_aextend (nlen start : Nat) : Op.Keeps Heap.SameSlot (Heap.aextend nlen start) :=
  .bind .get fun _ => .bind (.require _ _) fun _ => .modify fun _ => rfl

theorem slot_extendPairs (size : Nat → Nat) (start n : Nat) (pps : List TvPair) :
    Op.Keeps Heap.SameSlot (extendPairs size start n pps) := by
  induction pps generalizing n with
  | nil => exact .pure ()
  | cons pp pps ih => exact .bind (slot_aextend _ _) fun _ => ih (n + 1)

theorem slot_uriParse (m : Mem) (s : Str) : Op.Keeps Heap.SameSlot (Uri.parse m s) :=
  .bind (slot_of_grows (Heap.keeps_alloc _)) fun _ => .bind .get fun _ =>
    .cleanup (.bind (.orElse _ _) fun _ => .bind (slot_extendPairs _ _ _ _) fun _ =>
      .bind (slot_extendPairs _ _ _ _) fun _ => .pure _) fun _ => rfl

theorem slot_copyRouteSet (m : Mem) (srcp : List Str) :
    Op.Keeps Heap.SameSlot (copyRouteSet m srcp) := by
  cases srcp with
  | nil => exact .pure _
  | cons s srcs =>
    exact .bind (slot_of_grows (Heap.keeps_alloc _)) fun _ => slot_of_grows (Heap.keeps_appendAll _ _)

/-! ## Work on one slot -/

/-- The same transaction, no less done. -/
def Ctl.Works (c c' : Ctl) : Prop := c.SameLife c' ∧ c.StaysDone c'

instance : IsPreorder Ctl Ctl.Works where
  refl _ := ⟨Std.Refl.refl _, Std.Refl.refl _⟩
  trans _ _ _ h h' := ⟨IsTrans.trans _ _ _ h.1 h'.1, IsTrans.trans _ _ _ h.2 h'.2⟩

theorem Ctl.works_core {c c' : Ctl} (h : c'.core = c.core) : c.Works c' := by
  simp only [Ctl.core, Ctl.mk.injEq] at h
  exact ⟨⟨by tauto, by tauto, by tauto, fun _ => by tauto⟩,
    Ctl.staysDone_same (by tauto) (by tauto) (by tauto) (Prod.ext (by tauto) (by tauto))⟩

theorem Ctl.works_ended {c c' : Ctl} (hLife : c.SameLife c') (hState : c'.state = .TERMINATED)
    (hReported : c'.final_reported = c.final_reported) (hOver : c'.terminated = true)
    (hCalls : c'.calls = c.calls) : c.Works c' :=
  ⟨hLife, Ctl.staysDone_ended hState hReported hOver hCalls⟩

theorem quiet_onScratch {α : Type} {x : HeapM α} (hx : Op.Keeps Heap.SameSlot x) (e : TmError) :
    Op.Keeps Txi.Quiet (onScratch e x) := by
  refine .failWith ?_ e
  intro tp r tp' hRun
  simp only [Op.run, Op.zoom] at hRun
  split at hRun
  · cases hRun
  · rename_i r₁ hp hPart
    obtain ⟨-, rfl⟩ := Prod.mk.inj (Option.some.inj hRun)
    exact ⟨rfl, hx _ _ _ hPart⟩

theorem quiet_grows {α : Type} {x : HeapM α} (hx : Op.Keeps Heap.Grows x) (e : TmError) :
    Op.Keeps Txi.Quiet (onScratch e x) := quiet_onScratch (slot_of_grows hx) e

theorem quiet_modCache (f : Cache → Cache) : Op.Keeps Txi.Quiet (modCache f) :=
  .modify fun _ => ⟨rfl, rfl⟩

theorem quiet_modUacCache (f : UacCache → UacCache) : Op.Keeps Txi.Quiet (modUacCache f) :=
  quiet_modCache _

theorem quiet_text (m : Mem) (s : Str) : Op.Keeps Txi.Quiet (text m s) :=
  .bind .get fun _ => .pure _

theorem quiet_copyTargetAddr (m : Mem) (srcp : Addr) : Op.Keeps Txi.Quiet (copyTargetAddr m srcp) :=
  .bind (.ite (fun _ => .pure _) fun _ => quiet_grows (Heap.keeps_append _ _) _) fun _ => .pure _

theorem quiet_copyUri (m : Mem) (srcp : Str) : Op.Keeps Txi.Quiet (copyUri m srcp) :=
  quiet_grows (Heap.keeps_append _ _) _

theorem quiet_requestUriMaterialize (tm : Tm) (targetp : RequestTarget) :
    Op.Keeps Txi.Quiet (requestUriMaterialize tm targetp) :=
  .bind (.assert _) fun _ => .ite (fun _ => quiet_grows (Heap.keeps_append _ _) _) fun _ =>
    .bind (.demand _) fun _ => .bind (.require _ _) fun _ => .bind (quiet_text _ _) fun _ =>
      quiet_grows (Heap.keeps_sprintf _) _

theorem quiet_formatLocalUri (m : Mem) (localp : Addr) (userp : Str) (include_port : Bool) :
    Op.Keeps Txi.Quiet (formatLocalUri m localp userp include_port) := by
  refine .bind (quiet_text _ _) fun _ => .bind (quiet_text _ _) fun _ => ?_
  cases localp.af with
  | INET => exact quiet_grows (Heap.keeps_sprintf _) _
  | INET6 => exact quiet_grows (Heap.keeps_sprintf _) _
  | unspec => exact .fail _

theorem quiet_initUacRequest (m : Mem) (request_idp : RequestId) (request_urip : Str) (mdp : Method) :
    Op.Keeps Txi.Quiet (initUacRequest m request_idp request_urip mdp) :=
  .bind (quiet_grows (Heap.keeps_append _ _) _) fun _ => .bind (quiet_modCache _) fun _ =>
    .bind (quiet_grows (Heap.keeps_append _ _) _) fun _ =>
      .bind (quiet_onScratch (slot_uriParse _ _) _) fun _ => .bind (quiet_modCache _) fun _ =>
        quiet_modUacCache _

theorem quiet_initUacPartiesByUsername (m : Mem) (localp : Addr) (partiesp : RequestParties) :
    Op.Keeps Txi.Quiet (initUacPartiesByUsername m localp partiesp) :=
  .bind (quiet_formatLocalUri _ _ _ _) fun _ => .bind (quiet_modUacCache _) fun _ =>
    .bind (quiet_formatLocalUri _ _ _ _) fun _ => .bind (quiet_modUacCache _) fun _ =>
      .bind (quiet_formatLocalUri _ _ _ _) fun _ => quiet_modUacCache _

theorem quiet_initUacPartiesByUri (m : Mem) (partiesp : RequestParties) (dialog_tagsp : DialogTags) :
    Op.Keeps Txi.Quiet (initUacPartiesByUri m partiesp dialog_tagsp) :=
  .bind (quiet_copyUri _ _) fun _ => .bind (quiet_modUacCache _) fun _ =>
    .bind (quiet_copyUri _ _) fun _ => .bind (quiet_modUacCache _) fun _ =>
      .bind (quiet_copyUri _ _) fun _ => .bind (quiet_modUacCache _) fun _ =>
        .bind (quiet_grows (Heap.keeps_append _ _) _) fun _ => .bind (quiet_modCache _) fun _ =>
          .bind (quiet_grows (Heap.keeps_append _ _) _) fun _ => quiet_modCache _

theorem quiet_copyParsedUri (m : Mem) (srcp : Option Uri) :
    Op.Keeps Txi.Quiet (copyParsedUri m srcp) :=
  .bind (.demand _) fun _ => .bind (quiet_grows (Heap.keeps_build _ _) _) fun _ =>
    .bind (quiet_onScratch (slot_uriParse _ _) _) fun _ => quiet_modUacCache _

theorem quiet_callIdPolicy (policy : IdPolicy) (inp : IdPolicyIn) :
    Op.Keeps Txi.Quiet (callIdPolicy policy inp) := by
  intro tp r tp' hRun
  simp only [callIdPolicy, Op.run_bind, Op.run_get, Op.andThen_ok, Op.run_modify] at hRun
  have hAnswer : tp.Quiet { tp with
      scratch := (policy.cb tp.id_calls inp tp.scratch).2, id_calls := tp.id_calls + 1 } :=
    ⟨rfl, (policy.extends_heap _ _ _).slot⟩
  exact IsTrans.trans _ _ _ hAnswer (Op.Keeps.orElse _ _ _ _ _ hRun)

theorem quiet_prepareDefaultIds (tx_index : Nat) : Op.Keeps Txi.Quiet (prepareDefaultIds tx_index) :=
  .bind .get fun _ => .bind (quiet_grows (Heap.keeps_sprintf _) _) fun _ =>
    .bind (quiet_grows (Heap.keeps_sprintf _) _) fun _ => .pure _

theorem quiet_prepareInitialCallId (tm : Tm) (tx_index : Nat) :
    Op.Keeps Txi.Quiet (prepareInitialCallId tm tx_index) := by
  refine .bind .get fun _ => .ite (fun _ => .pure _) fun _ => .bind ?_ fun _ =>
    .bind (.require _ _) fun _ => .bind (quiet_grows (Heap.keeps_append _ _) _) fun _ => quiet_modCache _
  cases tm.id_policy with
  | none => exact quiet_grows (Heap.keeps_sprintf _) _
  | some policy => exact .bind (quiet_callIdPolicy _ _) fun _ => .pure _

theorem quiet_generateIds (tm : Tm) (tx_index : Nat) :
    Op.Keeps Txi.Quiet (generateIds tm tx_index) := by
  refine .bind .get fun _ => ?_
  cases tm.id_policy with
  | none => exact quiet_prepareDefaultIds _
  | some policy => exact quiet_callIdPolicy _ _

theorem quiet_identify (m : Mem) (tp : Txi) : tp.Quiet (tp.identify m) := by
  have hAny : ∀ (id : TmId) (method_type : Method), tp.Quiet { tp with id, method_type } :=
    fun _ _ => ⟨rfl, rfl⟩
  exact hAny _ _

theorem quiet_prepareIds (tm : Tm) (tx_index : Nat) : Op.Keeps Txi.Quiet (prepareIds tm tx_index) :=
  .bind (quiet_generateIds _ _) fun _ => .bind .get fun _ => .bind (.require _ _) fun _ =>
    .bind (quiet_modCache _) fun _ => .modify fun _ => quiet_identify _ _

theorem quiet_rollbackTo (cp : Option Nat) : Op.Keeps Txi.Quiet (rollbackTo cp) := by
  cases cp with
  | none => exact .pure _
  | some cp => exact quiet_onScratch (slot_rollback cp) _

theorem quiet_printDec (n : Nat) : Op.Keeps Txi.Quiet (printDec n) :=
  quiet_grows (Heap.keeps_sprintf _) _

theorem quiet_buildRequest (tm : Tm) (tx_index : Nat) (bp : BuildRequestParams) :
    Op.Keeps Txi.Quiet (buildRequest tm tx_index bp) := by
  unfold buildRequest
  refine .bind .get fun _ => .bind (.assert _) fun _ => .bind (quiet_rollbackTo _) fun _ => ?_
  refine .bind (quiet_prepareIds _ _) fun _ => .bind .get fun _ => ?_
  refine .bind (.ite (fun _ => quiet_printDec _) fun _ => .pure _) fun _ => ?_
  refine .bind (.ite (fun _ => .bind (quiet_printDec _) fun _ => .pure _) fun _ => .pure _) fun _ => ?_
  refine .bind (.require _ _) fun _ => ?_
  refine .bind (.ite (fun _ => quiet_printDec _) fun _ => .pure _) fun _ => ?_
  refine .bind (.orElse _ _) fun _ => .bind (.demand _) fun _ => ?_
  refine .bind (quiet_grows (Heap.keeps_build _ _) _) fun _ => ?_
  exact .modify fun _ => ⟨rfl, rfl⟩

theorem quiet_reserveUacSlot (tm : Tm) (method : Method) (localp : Addr) (targetp : Option Addr) :
    Op.Keeps Txi.Quiet (reserveUacSlot tm method localp targetp) :=
  .bind (.demand _) fun _ => .bind (quiet_copyTargetAddr _ _) fun _ =>
    .bind (.ite (fun _ => quiet_copyTargetAddr _ _) fun _ => .pure _) fun _ =>
      .bind (.ite (fun _ => quiet_grows (Heap.keeps_alloc _) _) fun _ => .pure _) fun _ =>
        .bind (quiet_grows Heap.keeps_checkpoint _) fun _ =>
          .bind (.modify fun _ => ⟨rfl, rfl⟩) fun _ => .pure _

theorem quiet_fillUacTr (tpp : NewUacTrParams) (mdp : Method) (tx_index : Nat) (tm : Tm) :
    Op.Keeps Txi.Quiet (fillUacTr tpp mdp tx_index tm) :=
  .bind (quiet_requestUriMaterialize _ _) fun _ => .bind (quiet_initUacRequest _ _ _ _) fun _ =>
    .bind (quiet_prepareInitialCallId _ _) fun _ =>
      .bind (quiet_initUacPartiesByUsername _ _ _) fun _ => .bind (quiet_modUacCache _) fun _ =>
        quiet_reserveUacSlot _ _ _ _

theorem quiet_fillInDialog (tpp : NewInDialogParams) (mdp : Method) (tm : Tm) :
    Op.Keeps Txi.Quiet (fillInDialog tpp mdp tm) :=
  .bind (quiet_initUacRequest _ _ _ _) fun _ => .bind (quiet_initUacPartiesByUri _ _ _) fun _ =>
    .bind (quiet_onScratch (slot_copyRouteSet _ _) _) fun _ => .bind (quiet_modUacCache _) fun _ =>
      quiet_reserveUacSlot _ _ _ _

theorem quiet_cloneCache (m : Mem) (srcp : Txi) (method : Method) :
    Op.Keeps Txi.Quiet (cloneCache m srcp method) :=
  .bind (quiet_copyUri _ _) fun _ => .bind (quiet_modCache _) fun _ =>
    .bind (quiet_copyParsedUri _ _) fun _ => .bind (quiet_copyUri _ _) fun _ =>
      .bind (quiet_modUacCache _) fun _ => .bind (quiet_copyUri _ _) fun _ =>
        .bind (quiet_modUacCache _) fun _ => .bind (quiet_copyUri _ _) fun _ =>
          .bind (quiet_modUacCache _) fun _ => .bind (quiet_modCache _) fun _ =>
            .bind (quiet_copyUri _ _) fun _ => .bind (quiet_modCache _) fun _ =>
              .bind (.ite (fun _ => quiet_copyUri _ _) fun _ => .pure _) fun _ =>
                .bind (quiet_modCache _) fun _ => quiet_modUacCache _

theorem life_quiet {α : Type} {x : TxM α} (hx : Op.Keeps Txi.Quiet x) :
    Op.Keeps (Txi.SameLife undone) x := hx.mono fun _ _ => Txi.Quiet.sameLife

theorem life_modCtl {f : Ctl → Ctl} (h : ∀ c : Ctl, c.Works (f c)) :
    Op.Keeps (Txi.SameLife undone) (modCtl f) :=
  .modify fun tp => .of_done (h tp.toCtl).1 rfl (h tp.toCtl).2

theorem life_onInvite (f : UacInvite → UacInvite) :
    Op.Keeps (Txi.SameLife undone) (modCtl (Ctl.onInvite f)) := life_modCtl fun _ => Ctl.works_core rfl

theorem life_setCtl {f : TimerPolicy → Ctl → Option Ctl}
    (h : ∀ p c c', f p c = some c' → c.Works c') :
    Op.Keeps (Txi.SameLife undone) (setCtl f) := by
  intro tp r tp' hRun
  simp only [setCtl, Op.run_bind, Op.run_get, Op.andThen_ok] at hRun
  cases hf : f tp.timers tp.toCtl with
  | none =>
    rw [hf] at hRun
    cases hRun
  | some c =>
    rw [hf, Op.run_demand_some, Op.andThen_ok, Op.run_modify] at hRun
    obtain ⟨-, rfl⟩ := Prod.mk.inj (Option.some.inj hRun)
    exact .of_done (h _ _ _ hf).1 rfl (h _ _ _ hf).2

theorem life_releaseOutbound : Op.Keeps (Txi.SameLife undone) releaseOutbound :=
  .bind .get fun _ => .bind (life_quiet (quiet_rollbackTo _)) fun _ =>
    .modify fun _ => .of_done ⟨rfl, rfl, rfl, fun _ => rfl⟩ rfl (Ctl.staysDone_same rfl rfl rfl rfl)

/-! ## The parameters of a dialog -/

theorem slot_heapStrDup (m : Mem) (s : Str) : Op.Keeps Heap.SameSlot (heapStrDup m s) :=
  .failWith (slot_of_grows (Heap.keeps_append _ _)) _

theorem slot_dialogCopyAddr (m : Mem) (addr : Addr) : Op.Keeps Heap.SameSlot (dialogCopyAddr m addr) :=
  .bind (.ite (fun _ => .pure _) fun _ => slot_heapStrDup _ _) fun _ => .pure _

theorem slot_parseTargetUri (m : Mem) (s : Str) : Op.Keeps Heap.SameSlot (parseTargetUri m s) :=
  .bind (.failWith (slot_uriParse _ _) _) fun _ => .bind (.require _ _) fun _ => .pure _

theorem slot_dialogResolveTarget (m : Mem) (basep : Addr) (remote_targetp : Str)
    (route_src : List Str) (reverse : Bool) :
    Op.Keeps Heap.SameSlot (dialogResolveTarget m basep remote_targetp route_src reverse) := by
  refine .bind (slot_heapStrDup _ _) fun _ => .bind ?_ fun _ =>
    .bind (slot_parseTargetUri _ _) fun _ => .pure _
  cases route_src with
  | nil => exact .pure _
  | cons s srcs =>
    exact .bind (.failWith (slot_of_grows (Heap.keeps_alloc _)) _) fun _ =>
      .bind (.failWith (slot_of_grows (Heap.keeps_appendAll _ _)) _) fun _ =>
        .bind (slot_parseTargetUri _ _) fun _ => .bind .get fun _ =>
          .ite (fun _ => .pure _) fun _ => .pure _

theorem slot_initUacDialogRequestParams (tm : Tm) (anchor_index : Nat) (msg : Msg)
    (method_type : UInt8) :
    Op.Keeps Heap.SameSlot (initUacDialogRequestParams tm anchor_index msg method_type) := by
  unfold initUacDialogRequestParams
  refine .bind (.assert _) fun _ => .bind (.require _ _) fun _ => .bind (.assert _) fun _ => ?_
  refine .bind (.require _ _) fun _ => .bind (.orElse _ _) fun _ => .bind (.orElse _ _) fun _ => ?_
  refine .bind (.orElse _ _) fun _ => .bind .get fun _ => .bind (.orElse _ _) fun _ => ?_
  refine .bind (.require _ _) fun _ => .bind (slot_dialogResolveTarget _ _ _ _ _) fun _ => ?_
  refine .bind (slot_heapStrDup _ _) fun _ => .bind (slot_heapStrDup _ _) fun _ => ?_
  refine .bind (slot_heapStrDup _ _) fun _ => .bind (slot_heapStrDup _ _) fun _ => ?_
  refine .bind (slot_heapStrDup _ _) fun _ => .bind (slot_heapStrDup _ _) fun _ => ?_
  exact .bind (slot_heapStrDup _ _) fun _ => .bind (slot_dialogCopyAddr _ _) fun _ => .pure _

theorem quiet_zoom {ε α : Type} {x : Op ε Heap α} (hx : Op.Keeps Heap.SameSlot x) :
    Op.Keeps Txi.Quiet
      (Op.zoom (fun tp : Txi => tp.scratch) (fun hp tp => { tp with scratch := hp }) x) := by
  intro tp r tp' hRun
  simp only [Op.run, Op.zoom] at hRun
  split at hRun
  · cases hRun
  · rename_i r₁ hp hPart
    obtain ⟨-, rfl⟩ := Prod.mk.inj (Option.some.inj hRun)
    exact ⟨rfl, hx _ _ _ hPart⟩

theorem quiet_applyUac2xxAckDialog (anchor_index : Nat) (msg : Msg) (tm : Tm) :
    Op.Keeps Txi.Quiet (applyUac2xxAckDialog anchor_index msg tm) :=
  .bind (quiet_zoom (slot_initUacDialogRequestParams _ _ _ _)) fun _ =>
    .bind (.attempt (quiet_onScratch (slot_uriParse _ _) _)) fun _ =>
      .bind (quiet_modUacCache _) fun _ => .bind (.require _ _) fun _ =>
        .bind (quiet_modUacCache _) fun _ => .bind (quiet_modCache _) fun _ =>
          .modify fun _ => ⟨rfl, rfl⟩

theorem quiet_applyNon2xxAck (tpBranch : Str) (msg : Msg) (tm : Tm) :
    Op.Keeps Txi.Quiet (applyNon2xxAck tpBranch msg tm) :=
  .bind (.orElse _ _) fun _ => .bind .get fun _ =>
    .bind (.ite (fun _ => quiet_copyUri _ _) fun _ => .pure _) fun _ => .bind (quiet_modCache _) fun _ =>
      .bind (quiet_grows (Heap.keeps_append _ _) _) fun _ => quiet_modCache _

/-! ## Control -/

theorem Ctl.works_inviteFinal {p : TimerPolicy} {now : UInt64} {sclass : Nat} {c c' : Ctl}
    (h : c.inviteFinal p now sclass = some c') : c.Works c' := by
  rw [Ctl.inviteFinal] at h
  split at h
  · obtain ⟨ms, -, rfl⟩ := Option.map_eq_some_iff.mp h
    exact ⟨⟨rfl, rfl, rfl, fun _ => rfl⟩, fun _ => Or.inl rfl, id, id, .same rfl⟩
  · obtain rfl := Option.some.inj h
    exact ⟨⟨rfl, rfl, rfl, fun _ => rfl⟩, fun _ => Or.inl rfl, id, id, .same rfl⟩

theorem Ctl.works_noninviteFinal {p : TimerPolicy} {now : UInt64} {c c' : Ctl}
    (h : c.noninviteFinal p now = some c') : c.Works c' := by
  obtain ⟨ms, -, rfl⟩ := Option.map_eq_some_iff.mp h
  exact ⟨⟨rfl, rfl, rfl, fun _ => rfl⟩, fun _ => Or.inl rfl, fun _ => rfl, id, .same rfl⟩

theorem Ctl.armCleanup_some {p : TimerPolicy} {now : UInt64} {c c' : Ctl}
    (h : c.armCleanup p now = some c') : ∃ invite, c' = { c with invite } := by
  rw [Ctl.armCleanup] at h
  split at h
  · obtain ⟨ms, -, rfl⟩ := Option.map_eq_some_iff.mp h
    exact ⟨_, rfl⟩
  · obtain rfl := Option.some.inj h
    exact ⟨_, rfl⟩

theorem Ctl.works_armCleanup {p : TimerPolicy} {now : UInt64} {c c' : Ctl}
    (h : c.armCleanup p now = some c') : c.Works c' := by
  rw [Ctl.armCleanup] at h
  split at h
  · obtain ⟨ms, -, rfl⟩ := Option.map_eq_some_iff.mp h
    exact Ctl.works_core rfl
  · obtain rfl := Option.some.inj h
    exact Std.Refl.refl _

theorem Ctl.works_scheduleResend {p : TimerPolicy} {now : UInt64} {done : Bool} {c c' : Ctl}
    (h : c.scheduleResend p now done = some c') : c.Works c' := by
  rw [Ctl.scheduleResend] at h
  split at h
  · obtain rfl := Option.some.inj h
    exact Ctl.works_core rfl
  · obtain ⟨ms, -, rfl⟩ := Option.map_eq_some_iff.mp h
    exact Ctl.works_core rfl

theorem Ctl.works_postSendInvite {p : TimerPolicy} {now : UInt64} {c c' : Ctl}
    (h : c.postSendInvite p now = some c') : c.Works c' := by
  rw [Ctl.postSendInvite] at h
  split at h
  · obtain rfl := Option.some.inj h
    exact Ctl.works_core rfl
  · simp only [Option.bind_eq_bind, Option.bind_eq_some_iff] at h
    obtain ⟨iv, -, iv', -, h⟩ := h
    have hArmed : c.Works { c with invite := some iv' } := Ctl.works_core rfl
    exact IsTrans.trans _ _ _ hArmed (Ctl.works_scheduleResend h)

theorem Ctl.works_postSendNoninvite {p : TimerPolicy} {now : UInt64} {c c' : Ctl}
    (h : c.postSendNoninvite p now = some c') : c.Works c' := by
  simp only [Ctl.postSendNoninvite, Option.bind_eq_bind] at h
  split at h
  · obtain ⟨c₁, hFirst, h⟩ := Option.bind_eq_some_iff.mp h
    obtain ⟨ms, -, rfl⟩ := Option.map_eq_some_iff.mp hFirst
    have hArmed : c.Works (c.arm .F ms now) :=
      ⟨⟨rfl, rfl, rfl, fun _ => rfl⟩, Ctl.staysDone_same rfl rfl rfl rfl⟩
    exact IsTrans.trans _ _ _ hArmed (Ctl.works_scheduleResend h)
  · exact Ctl.works_scheduleResend h

theorem Ctl.works_uacSent {p : TimerPolicy} {now : UInt64} {c c' : Ctl}
    (h : c.uacSent p now = some c') : c.Works c' := by
  have hNote : c.Works (c.noteSend now) := Ctl.works_core rfl
  refine IsTrans.trans _ _ _ hNote ?_
  simp only [Ctl.uacSent] at h
  split at h
  · obtain rfl := Option.some.inj h
    exact Ctl.works_core rfl
  · split at h
    · exact Ctl.works_postSendInvite h
    · exact Ctl.works_postSendNoninvite h

/-! ## Server transactions -/

theorem Ctl.kept_uasMarkTerminated (c : Ctl) : c.Kept allow c.uasMarkTerminated :=
  Ctl.kept_ended ⟨rfl, rfl, rfl, fun _ => rfl⟩ rfl rfl rfl rfl rfl rfl rfl

theorem Ctl.kept_reported (c : Ctl) : c.Kept allow { c with final_reported := true } :=
  ⟨⟨rfl, rfl, rfl, fun _ => rfl⟩, rfl, id, Or.inr (Or.inl rfl), fun _ => ⟨id, fun _ => rfl, id, .same rfl⟩,
    fun _ hTimed => Ctl.onward_same hTimed rfl rfl rfl rfl⟩

theorem Ctl.kept_silenced (c : Ctl) : c.Kept allow { c with callbacks := {} } :=
  ⟨⟨rfl, rfl, rfl, fun _ => rfl⟩, rfl, id, Or.inr (Or.inl rfl), fun _ => ⟨id, id, id, Or.inr rfl⟩,
    fun _ hTimed => Ctl.onward_same hTimed rfl rfl rfl rfl⟩

/-- A server transaction that moves to a later phase. -/
theorem Ctl.kept_later {c c' : Ctl} (hRole : c.role = .UAS) (hLive : c.state ≠ .TERMINATED)
    (hLife : c.SameLife c') (hMethod : c'.method_type = c.method_type)
    (hOwner : c'.uas_owner = c.uas_owner) (hTimed : c.UasTimed → c'.UasTimed)
    (hPhase : c.UasTimed → c.phase < c'.phase ∨ c.timer.type = .NONE ∧ c.phase ≤ c'.phase) :
    c.Kept allow c' := by
  refine ⟨hLife, hMethod, fun hEnded => absurd hEnded hLive, Or.inr (Or.inl hOwner), fun hUac => ?_,
    fun _ hc => ⟨hTimed hc, ?_, fun hSame hRuns => ?_, Or.inr fun hRuns hType _ => ?_⟩⟩
  · rw [hRole] at hUac
    cases hUac
  · have := hPhase hc
    omega
  · rcases hPhase hc with hLt | ⟨hNone, -⟩
    · omega
    · exact absurd hNone hRuns
  · have hSame := hc.phase_eq (hTimed hc) hType hRuns
    rcases hPhase hc with hLt | ⟨hNone, -⟩
    · omega
    · exact absurd hNone hRuns

/-- The same phase with the same timer, its due time set if it was not. -/
theorem Ctl.kept_started {c c' : Ctl} (hRole : c.role = .UAS) (hLife : c.SameLife c')
    (hMethod : c'.method_type = c.method_type) (hState : c'.state = c.state)
    (hType : c'.timer.type = c.timer.type) (hLast : c'.last_status_code = c.last_status_code)
    (hOwner : c'.uas_owner = c.uas_owner)
    (hDue : c.timer.due_at_ms ≠ TIME_NONE → c'.timer.due_at_ms ≤ c.timer.due_at_ms) :
    c.Kept allow c' := by
  refine ⟨hLife, hMethod, hState.trans, Or.inr (Or.inl hOwner), fun hUac => ?_,
    fun _ hTimed => ⟨?_, ?_, fun _ _ => hType, Or.inr fun _ _ => hDue⟩⟩
  · rw [hRole] at hUac
    cases hUac
  · rwa [UasTimed, hState, hType, hMethod, hLast]
  · rw [Ctl.phase, Ctl.phase, hState]

/-- A transaction without a final response is in its first phase. -/
theorem Ctl.UasTimed.open {c : Ctl} (h : c.UasTimed) (hLive : c.state ≠ .TERMINATED)
    (hOpen : c.last_status_code < 200) : c.timer.type = .NONE ∧ c.phase = 0 := by
  have hFinal : ∀ n : UInt16, 200 ≤ n → c.last_status_code ≥ n → False := by
    intro n hn hGe
    exact absurd (UInt16.lt_of_lt_of_le hOpen (UInt16.le_trans hn hGe)) (UInt16.lt_irrefl _)
  rw [UasTimed] at h
  rw [Ctl.phase]
  cases hState : c.state <;> rw [hState] at h
  case COMPLETED =>
    rcases h with ⟨-, -, hCode⟩ | ⟨-, -, hCode⟩
    · exact (hFinal 300 (by decide) hCode).elim
    · exact (hFinal 200 (by decide) hCode).elim
  case ACCEPTED => exact (hFinal 200 (by decide) h.2.1).elim
  case CONFIRMED => exact (hFinal 300 (by decide) h.2.2).elim
  case TERMINATED => exact absurd hState hLive
  all_goals exact ⟨h.1, rfl⟩

/-- A transaction with a final response to a request other than an INVITE. -/
theorem Ctl.UasTimed.answered {c : Ctl} (h : c.UasTimed) (hLive : c.state ≠ .TERMINATED)
    (hNotAccepted : c.state ≠ .ACCEPTED) (hFinal : 200 ≤ c.last_status_code)
    (hNotRefused : ¬ (c.method_type = .INVITE ∧ 300 ≤ c.last_status_code)) :
    c.state = .COMPLETED ∧ c.method_type ≠ .INVITE := by
  rw [UasTimed] at h
  cases hState : c.state <;> rw [hState] at h
  case COMPLETED =>
    rcases h with ⟨-, hInvite, hCode⟩ | ⟨-, hOther, -⟩
    · exact absurd ⟨hInvite, hCode⟩ hNotRefused
    · exact ⟨rfl, hOther⟩
  case ACCEPTED => exact absurd hState hNotAccepted
  case CONFIRMED => exact absurd ⟨h.2.1, h.2.2⟩ hNotRefused
  case TERMINATED => exact absurd hState hLive
  all_goals exact absurd h.2 (UInt16.not_lt.mpr hFinal)

theorem Ctl.kept_uasAnswered {p : TimerPolicy} {method : Method} {code : StatusCode} {no_ack : Bool}
    {c c' : Ctl} (hRole : c.role = .UAS) (hLive : c.state ≠ .TERMINATED)
    (hOpen : c.last_status_code < 200) (hMethod : method = c.method_type)
    (h : c.uasAnswered p method code.1 no_ack = some c') : c.Kept allow c' := by
  have hCode : code.1 < UInt16.size := Nat.lt_of_le_of_lt code.2.2 (by decide)
  have hLater : ∀ d : Ctl, c.SameLife d → d.method_type = c.method_type → d.uas_owner = c.uas_owner →
      d.UasTimed → c.Kept allow d := fun d hLife hSame hOwner hTimed =>
    Ctl.kept_later hRole hLive hLife hSame hOwner (fun _ => hTimed) fun hc => by
      obtain ⟨hNone, hPhase⟩ := hc.open hLive hOpen
      exact Or.inr ⟨hNone, hPhase ▸ Nat.zero_le _⟩
  simp only [Ctl.uasAnswered] at h
  split at h
  · rename_i hLow
    obtain rfl := Option.some.inj h
    refine hLater _ ⟨rfl, rfl, rfl, fun _ => rfl⟩ rfl rfl ⟨rfl, ?_⟩
    rwa [UInt16.lt_iff_toNat_lt, UInt16.toNat_ofNat_of_lt' hCode]
  · rename_i hHigh
    have hFinal : 200 ≤ UInt16.ofNat code.1 := by
      rw [UInt16.le_iff_toNat_le, UInt16.toNat_ofNat_of_lt' hCode]
      exact Nat.le_of_not_lt hHigh
    split at h
    · rename_i hOk
      obtain ⟨ms, -, rfl⟩ := Option.map_eq_some_iff.mp h
      refine hLater _ ⟨rfl, rfl, rfl, fun _ => rfl⟩ rfl rfl ⟨rfl, hFinal, ?_⟩
      rw [UInt16.lt_iff_toNat_lt, UInt16.toNat_ofNat_of_lt' hCode]
      exact hOk.2
    · rename_i hNotOk
      split at h
      · rename_i hInvite
        obtain ⟨ms, -, rfl⟩ := Option.map_eq_some_iff.mp h
        refine hLater _ ⟨rfl, rfl, rfl, fun _ => rfl⟩ rfl rfl (Or.inl ⟨rfl, hMethod ▸ hInvite, ?_⟩)
        rw [UInt16.le_iff_toNat_le, UInt16.toNat_ofNat_of_lt' hCode]
        exact Nat.le_of_not_lt fun hLt => hNotOk ⟨hInvite, hLt⟩
      · rename_i hOther
        obtain rfl := Option.some.inj h
        exact hLater _ ⟨rfl, rfl, rfl, fun _ => rfl⟩ rfl rfl (Or.inr ⟨Or.inl rfl, hMethod ▸ hOther, hFinal⟩)

/-- The ACK of a final response that is not a 2xx. -/
theorem Ctl.kept_uasHandleAck {p : TimerPolicy} {now : UInt64} {c c' : Ctl} (hRole : c.role = .UAS)
    (hState : c.state = .COMPLETED ∨ c.state = .ACCEPTED) (hInvite : c.method_type = .INVITE)
    (hNot2xx : ¬ (200 ≤ c.last_status_code ∧ c.last_status_code < 300))
    (h : c.uasHandleAck p now = some c') : c.Kept allow c' := by
  simp only [Ctl.uasHandleAck] at h
  split at h
  · obtain rfl := Option.some.inj h
    exact Ctl.kept_ended ⟨rfl, rfl, rfl, fun _ => rfl⟩ rfl rfl rfl rfl rfl rfl rfl
  · obtain ⟨ms, -, rfl⟩ := Option.map_eq_some_iff.mp h
    have hRefused : c.UasTimed → c.state = .COMPLETED ∧ 300 ≤ c.last_status_code := by
      intro hc
      rw [UasTimed] at hc
      rcases hState with hState | hState <;> rw [hState] at hc
      · rcases hc with ⟨-, -, hCode⟩ | ⟨-, hOther, -⟩
        · exact ⟨hState, hCode⟩
        · exact absurd hInvite hOther
      · exact absurd ⟨hc.2.1, hc.2.2⟩ hNot2xx
    refine Ctl.kept_later hRole (fun hEnded => ?_) ⟨rfl, rfl, rfl, fun _ => rfl⟩ rfl rfl
      (fun hc => ⟨rfl, hInvite, (hRefused hc).2⟩) fun hc => Or.inl ?_
    · rcases hState with hState | hState <;> rw [hState] at hEnded <;> cases hEnded
    · rw [Ctl.phase, (hRefused hc).1]
      exact Nat.lt_succ_self 1

theorem Ctl.kept_startTimerL {c : Ctl} (hRole : c.role = .UAS) (now : UInt64) :
    c.Kept allow (c.startTimerL now) := by
  rw [Ctl.startTimerL]
  split
  · rename_i hStart
    exact Ctl.kept_started hRole ⟨rfl, rfl, rfl, fun _ => rfl⟩ rfl rfl rfl rfl rfl fun hSet => absurd hStart.2 hSet
  · exact Std.Refl.refl _

theorem Ctl.kept_uasPostSendInviteFinal {p : TimerPolicy} {now : UInt64} {c c' : Ctl}
    (hRole : c.role = .UAS) (h : c.uasPostSendInviteFinal p now = some c') : c.Kept allow c' := by
  simp only [Ctl.uasPostSendInviteFinal] at h
  split at h
  · rename_i hStart
    split at h
    · obtain rfl := Option.some.inj h
      exact Ctl.kept_started hRole ⟨rfl, rfl, rfl, fun _ => rfl⟩ rfl rfl rfl rfl rfl fun hSet => absurd hStart hSet
    · obtain ⟨ms, -, rfl⟩ := Option.map_eq_some_iff.mp h
      exact Ctl.kept_started hRole ⟨rfl, rfl, rfl, fun _ => rfl⟩ rfl rfl rfl rfl rfl fun hSet => absurd hStart hSet
  · split at h
    · obtain rfl := Option.some.inj h
      exact Std.Refl.refl _
    · obtain ⟨ms, -, rfl⟩ := Option.map_eq_some_iff.mp h
      exact Ctl.kept_core rfl

/-- A resend at a time from which Timer J, armed already, would be due later than it is. -/
def Ctl.JPostponed (p : TimerPolicy) (now : UInt64) (c : Ctl) : Prop :=
  c.timer.type = .J ∧ ∃ ms, p.jMs = some ms ∧ c.timer.due_at_ms < now + ms.toUInt64

/-- Timer J, armed at every send. -/
theorem Ctl.kept_uasPostSendFinal {p : TimerPolicy} {now : UInt64} {c c' : Ctl} (hRole : c.role = .UAS)
    (hState : c.state = .COMPLETED) (hMethod : c.method_type ≠ .INVITE)
    (hRearm : c.JPostponed p now → allow.rearm) (h : c.uasPostSendFinal p now = some c') :
    c.Kept allow c' := by
  rw [Ctl.uasPostSendFinal] at h
  split at h
  · obtain rfl := Option.some.inj h
    exact Ctl.kept_uasMarkTerminated c
  · obtain ⟨ms, hMs, rfl⟩ := Option.map_eq_some_iff.mp h
    refine ⟨⟨rfl, rfl, rfl, fun _ => rfl⟩, rfl, id, Or.inr (Or.inl rfl), fun hUac => ?_, fun _ hc => ?_⟩
    · rw [hRole] at hUac
      cases hUac
    · rw [UasTimed, hState] at hc
      rcases hc with ⟨-, hInvite, -⟩ | ⟨hNone, hOther, hCode⟩
      · exact absurd hInvite hMethod
      refine ⟨?_, Nat.le_refl _, fun _ hRuns => (hNone.resolve_left hRuns).symm, ?_⟩
      · simp only [UasTimed, Ctl.arm, hState]
        exact Or.inr ⟨Or.inr trivial, hOther, hCode⟩
      · by_cases hLater : c.JPostponed p now
        · exact Or.inl (hRearm hLater)
        · refine Or.inr fun hRuns _ _ => UInt64.not_lt.mp fun hLt => hLater ?_
          exact ⟨hNone.resolve_left hRuns, ms, hMs, hLt⟩

theorem Ctl.kept_uasSent {p : TimerPolicy} {method : Method} {now : UInt64} {c c' : Ctl}
    (hRole : c.role = .UAS) (hLive : c.state ≠ .TERMINATED) (hTimed : c.UasTimed)
    (hMethod : method = c.method_type) (hRearm : c.JPostponed p now → allow.rearm)
    (h : c.uasSent p method now = some c') : c.Kept allow c' := by
  have hNote : c.Kept allow { c.noteSend now with next_send_at_ms := TIME_NONE } :=
    Ctl.kept_core rfl
  refine IsTrans.trans _ _ _ hNote ?_
  simp only [Ctl.uasSent] at h
  split at h
  · obtain rfl := Option.some.inj h
    exact Std.Refl.refl _
  · rename_i hNotAccepted
    split at h
    · exact Ctl.kept_uasPostSendInviteFinal hRole h
    · rename_i hNotRefused
      split at h
      · rename_i hFinal
        have hAnswered := hTimed.answered hLive hNotAccepted hFinal fun hRefused => by
          apply hNotRefused
          simp only [Bool.and_eq_true, Ctl.uasIsInviteNon2xxFinal, decide_eq_true_eq, beq_iff_eq]
          exact ⟨hFinal, hMethod.trans hRefused.1, hRefused.2⟩
        exact Ctl.kept_uasPostSendFinal hRole hAnswered.1 hAnswered.2 hRearm h
      · obtain rfl := Option.some.inj h
        exact Std.Refl.refl _

theorem Txi.kept_ctl {tp : Txi} {c : Ctl} (h : tp.toCtl.Kept allow c) :
    tp.Kept allow { tp with toCtl := c } :=
  ⟨h, Std.Refl.refl _, rfl, Std.Refl.refl _, Or.inr (Or.inr rfl)⟩

theorem kept_setCtl {P : Txi → Prop} {f : TimerPolicy → Ctl → Option Ctl}
    (h : ∀ tp c, P tp → f tp.timers tp.toCtl = some c → tp.toCtl.Kept allow c) :
    Op.KeepsFrom P (Txi.Kept allow) (setCtl f) := by
  intro tp r tp' hP hRun
  simp only [setCtl, Op.run_bind, Op.run_get, Op.andThen_ok] at hRun
  cases hf : f tp.timers tp.toCtl with
  | none =>
    rw [hf] at hRun
    cases hRun
  | some c =>
    rw [hf, Op.run_demand_some, Op.andThen_ok, Op.run_modify] at hRun
    obtain ⟨-, rfl⟩ := Prod.mk.inj (Option.some.inj hRun)
    exact Txi.kept_ctl (h _ _ hP hf)

/-! ## Storage below the last checkpoint -/

theorem below_reserve (len : Nat) (align_start : Bool) :
    Op.Keeps Heap.KeptBelow (Heap.reserve len align_start) := by
  intro hp r hp' hRun
  have hGrows := Heap.keeps_reserve _ _ _ _ _ hRun
  have hMarks : hp'.checkpoints = hp.checkpoints := by
    rw [Heap.run_reserve] at hRun
    generalize (if align_start then Heap.alignedSize hp.alen else hp.alen) = off at hRun
    simp only at hRun
    split at hRun
    · obtain ⟨-, rfl⟩ := Prod.mk.inj (Option.some.inj hRun)
      rfl
    · obtain ⟨-, rfl⟩ := Prod.mk.inj (Option.some.inj hRun)
      rfl
  exact ⟨hGrows.slot, hMarks, fun hLe => Nat.le_trans hLe hGrows.le,
    fun hLe k hk => hGrows.below k (Nat.lt_of_lt_of_le hk hLe)⟩

theorem below_build (m : Mem) (cb : List Chunk) : Op.Keeps Heap.KeptBelow (Heap.build m cb) := by
  intro hp r hp' hRun
  have hGrows := Heap.keeps_build _ _ _ _ _ hRun
  have hMarks : Op.Keeps (fun hp hp' : Heap => hp.checkpoints = hp'.checkpoints) (Heap.build m cb) := by
    have : IsPreorder Heap fun hp hp' : Heap => hp.checkpoints = hp'.checkpoints :=
      { refl := fun _ => rfl, trans := fun _ _ _ h h' => h.trans h' }
    exact .bind .get fun _ => .bind (.require _ _) fun _ => .bind (.modify fun _ => rfl) fun _ =>
      .bind (.orElse _ _) fun _ => .bind ((below_reserve _ _).mono fun _ _ h => h.checkpoints.symm)
        fun _ => .bind .get fun _ => .pure _
  exact ⟨hGrows.slot, (hMarks _ _ _ hRun).symm, fun hLe => Nat.le_trans hLe hGrows.le,
    fun hLe k hk => hGrows.below k (Nat.lt_of_lt_of_le hk hLe)⟩

theorem below_rollback (cp : Nat) : Op.Keeps Heap.KeptBelow (Heap.rollback cp) := by
  intro hp r hp' hRun
  rw [Heap.rollback, Op.run_bind, Op.run_get, Op.andThen_ok] at hRun
  simp only [Op.run_bind, Op.run_assert, Op.run_modify] at hRun
  split at hRun
  · rename_i hSome
    split at hRun
    · rename_i hLast
      split at hRun
      · rename_i hLe
        obtain ⟨-, rfl⟩ := Prod.mk.inj (Option.some.inj hRun)
        have hBase : hp.base = hp.checkpoints.getD cp 0 := by
          rw [Heap.base, List.getLast?_eq_getElem?, hLast, List.getD_eq_getElem?_getD]
        refine ⟨rfl, rfl, fun _ => ?_, fun _ k hk => ?_⟩
        · exact Nat.le_of_eq hBase
        · refine Chunk.writeAt_below _ _ ?_
          rwa [← hBase]
      · cases hRun
    · cases hRun
  · cases hRun

theorem kept_onScratch {α : Type} {x : HeapM α} (hx : Op.Keeps Heap.KeptBelow x) (e : TmError) :
    Op.Keeps (Txi.Kept allow) (onScratch e x) := by
  refine .failWith ?_ e
  intro tp r tp' hRun
  simp only [Op.run, Op.zoom] at hRun
  split at hRun
  · cases hRun
  · rename_i r₁ hp hPart
    obtain ⟨-, rfl⟩ := Prod.mk.inj (Option.some.inj hRun)
    exact ⟨Std.Refl.refl _, Std.Refl.refl _, rfl, hx _ _ _ hPart, Or.inr (Or.inr rfl)⟩

theorem rollback_succeeds {cp : Nat} {hp hp' : Heap} {r : Except Unit Unit}
    (hRun : (Heap.rollback cp).run hp = some (r, hp')) : r = .ok () := by
  simp only [Heap.rollback, Op.run_bind, Op.run_get, Op.andThen_ok, Op.run_assert] at hRun
  split at hRun
  · simp only [Op.andThen_ok] at hRun
    split at hRun
    · simp only [Op.andThen_ok] at hRun
      split at hRun
      · exact (Prod.mk.inj (Option.some.inj hRun)).1.symm
      · cases hRun
    · cases hRun
  · cases hRun

theorem rollbackTo_succeeds {cp : Option Nat} {tp tp' : Txi} {r : Except TmError Unit}
    (hRun : (rollbackTo cp).run tp = some (r, tp')) : r = .ok () := by
  cases cp with
  | none => exact (Prod.mk.inj (Option.some.inj hRun)).1.symm
  | some cp =>
    simp only [rollbackTo, onScratch, Op.run_failWith] at hRun
    split at hRun
    · cases hRun
    · rename_i hPart
      obtain ⟨hp, hPart, -⟩ := Op.zoom_some.mp hPart
      cases rollback_succeeds hPart
    · exact (Prod.mk.inj (Option.some.inj hRun)).1.symm

theorem onScratch_some {α : Type} {e : TmError} {x : HeapM α} {tp tp' : Txi} {r : Except TmError α}
    (hRun : (onScratch e x).run tp = some (r, tp')) : ∃ scratch, tp' = { tp with scratch } := by
  rw [onScratch, Op.run_failWith] at hRun
  split at hRun
  · cases hRun
  · rename_i hPart
    obtain ⟨-, rfl⟩ := Prod.mk.inj (Option.some.inj hRun)
    obtain ⟨scratch, -, rfl⟩ := Op.zoom_some.mp hPart
    exact ⟨scratch, rfl⟩
  · rename_i hPart
    obtain ⟨-, rfl⟩ := Prod.mk.inj (Option.some.inj hRun)
    obtain ⟨scratch, -, rfl⟩ := Op.zoom_some.mp hPart
    exact ⟨scratch, rfl⟩

theorem rollbackTo_some {cp : Option Nat} {tp tp' : Txi} {r : Except TmError Unit}
    (hRun : (rollbackTo cp).run tp = some (r, tp')) : r = .ok () ∧ ∃ scratch, tp' = { tp with scratch } := by
  refine ⟨rollbackTo_succeeds hRun, ?_⟩
  cases cp with
  | none =>
    obtain ⟨-, rfl⟩ := Prod.mk.inj (Option.some.inj hRun)
    exact ⟨tp.scratch, rfl⟩
  | some cp => exact onScratch_some hRun

theorem kept_rollbackTo (cp : Option Nat) : Op.Keeps (Txi.Kept allow) (rollbackTo cp) := by
  cases cp with
  | none => exact .pure _
  | some cp => exact kept_onScratch (below_rollback cp) _

/-- A release takes the identity of what has ended, or else is a stale one. -/
theorem kept_releaseOutbound :
    Op.KeepsFrom (fun tp => allow.stale ∨ tp.state = .TERMINATED) (Txi.Kept allow) releaseOutbound := by
  refine .getBind fun tp hEnded => ?_
  intro s r s' hs hRun
  rw [Op.run_bind] at hRun
  cases hFirst : (rollbackTo tp.checkpoint).run s with
  | none =>
    rw [hFirst] at hRun
    cases hRun
  | some out =>
    obtain ⟨r₁, t⟩ := out
    rw [hFirst] at hRun
    have hBack : Txi.Kept allow s t := kept_rollbackTo _ _ _ _ hFirst
    cases r₁ with
    | error e =>
      obtain ⟨-, rfl⟩ := Prod.mk.inj (Option.some.inj hRun)
      exact hBack
    | ok u =>
      rw [Op.andThen_ok, Op.run_modify] at hRun
      obtain ⟨-, rfl⟩ := Prod.mk.inj (Option.some.inj hRun)
      refine IsTrans.trans _ _ _ hBack ⟨Ctl.kept_core rfl,
        Std.Refl.refl _, rfl, Std.Refl.refl _, ?_⟩
      rcases hEnded with hStale | hEnded
      · exact Or.inl hStale
      · exact Or.inr (Or.inl (hBack.ctl.ended (hs ▸ hEnded)))

/-! ## What lasts of a server transaction -/

theorem releaseOutbound_some {tp tp' : Txi} {r : Except TmError Unit}
    (hRun : releaseOutbound.run tp = some (r, tp')) : ∃ scratch, tp' = { tp with
      scratch
      id := { tp.id with hash := 0, branch := Str.null, from_tag := Str.null }
      raw := Str.null, next_send_at_ms := TIME_NONE } := by
  rw [releaseOutbound, Op.run_bind, Op.run_get, Op.andThen_ok, Op.run_bind] at hRun
  cases hBack : (rollbackTo tp.checkpoint).run tp with
  | none =>
    rw [hBack] at hRun
    cases hRun
  | some out =>
    obtain ⟨r₁, t⟩ := out
    obtain ⟨rfl, scratch, rfl⟩ := rollbackTo_some hBack
    rw [hBack, Op.andThen_ok, Op.run_modify] at hRun
    obtain ⟨-, rfl⟩ := Prod.mk.inj (Option.some.inj hRun)
    exact ⟨scratch, rfl⟩

theorem lasts_releaseOutbound :
    Op.KeepsFrom (fun tp => allow.stale ∨ tp.state = .TERMINATED) (Txi.Lasts allow) releaseOutbound := by
  intro tp r tp' hEnded hRun
  have hKept := kept_releaseOutbound tp r tp' hEnded hRun
  have hBelow := hKept.heap
  obtain ⟨scratch, rfl⟩ := releaseOutbound_some hRun
  refine ⟨hKept, rfl, fun _ _ => ⟨rfl, hEnded.imp_right Or.inl⟩, fun _ hGrounded => ?_,
    fun _ _ hHashed => ⟨hBelow.holds hHashed.to_tag, hHashed.tagged, Or.inl rfl⟩⟩
  exact ⟨hBelow.top hGrounded.top, hBelow.holds hGrounded.call_id, Heap.holds_null _, Heap.holds_null _,
    hGrounded.host.imp_right hBelow.holds, Or.inl ⟨[], rfl⟩, hGrounded.target⟩

theorem setCtl_some {f : TimerPolicy → Ctl → Option Ctl} {tp tp' : Txi} {r : Except TmError Unit}
    (hRun : (setCtl f).run tp = some (r, tp')) :
    ∃ c, f tp.timers tp.toCtl = some c ∧ r = .ok () ∧ tp' = { tp with toCtl := c } := by
  simp only [setCtl, Op.run_bind, Op.run_get, Op.andThen_ok] at hRun
  cases hf : f tp.timers tp.toCtl with
  | none =>
    rw [hf] at hRun
    cases hRun
  | some c =>
    rw [hf, Op.run_demand_some, Op.andThen_ok, Op.run_modify] at hRun
    obtain ⟨rfl, rfl⟩ := Prod.mk.inj (Option.some.inj hRun)
    exact ⟨c, rfl, rfl, rfl⟩

theorem lasts_modCtl {f : Ctl → Ctl} (h : ∀ c : Ctl, c.Rests allow (f c)) :
    Op.Keeps (Txi.Lasts allow) (modCtl f) := .modify fun tp => Txi.lasts_ctl (h tp.toCtl)

theorem lasts_setCtl {P : Txi → Prop} {f : TimerPolicy → Ctl → Option Ctl}
    (h : ∀ tp c, P tp → f tp.timers tp.toCtl = some c → tp.toCtl.Rests allow c) :
    Op.KeepsFrom P (Txi.Lasts allow) (setCtl f) := by
  intro tp r tp' hP hRun
  obtain ⟨c, hc, -, rfl⟩ := setCtl_some hRun
  exact Txi.lasts_ctl (h tp c hP hc)

theorem Ctl.rests_uasMarkTerminated (c : Ctl) : c.Rests allow c.uasMarkTerminated :=
  ⟨c.kept_uasMarkTerminated, rfl, rfl⟩

theorem Ctl.rests_startTimerL {c : Ctl} (hRole : c.role = .UAS) (now : UInt64) :
    c.Rests allow (c.startTimerL now) := by
  refine ⟨Ctl.kept_startTimerL hRole now, ?_, ?_⟩ <;> rw [Ctl.startTimerL] <;> split <;> rfl

theorem Ctl.rests_uasHandleAck {p : TimerPolicy} {now : UInt64} {c c' : Ctl} (hKept : c.Kept allow c')
    (h : c.uasHandleAck p now = some c') : c.Rests allow c' := by
  simp only [Ctl.uasHandleAck] at h
  split at h
  · obtain rfl := Option.some.inj h
    exact ⟨hKept, rfl, rfl⟩
  · obtain ⟨ms, -, rfl⟩ := Option.map_eq_some_iff.mp h
    exact ⟨hKept, rfl, rfl⟩

theorem Ctl.uasPostSendInviteFinal_same {p : TimerPolicy} {now : UInt64} {c c' : Ctl}
    (h : c.uasPostSendInviteFinal p now = some c') :
    c'.last_status_code = c.last_status_code ∧ c'.uas_callbacks = c.uas_callbacks := by
  simp only [Ctl.uasPostSendInviteFinal] at h
  split at h <;> split at h
  · obtain rfl := Option.some.inj h
    exact ⟨rfl, rfl⟩
  · obtain ⟨ms, -, rfl⟩ := Option.map_eq_some_iff.mp h
    exact ⟨rfl, rfl⟩
  · obtain rfl := Option.some.inj h
    exact ⟨rfl, rfl⟩
  · obtain ⟨ms, -, rfl⟩ := Option.map_eq_some_iff.mp h
    exact ⟨rfl, rfl⟩

theorem Ctl.rests_uasSent {p : TimerPolicy} {method : Method} {now : UInt64} {c c' : Ctl}
    (hKept : c.Kept allow c') (h : c.uasSent p method now = some c') : c.Rests allow c' := by
  simp only [Ctl.uasSent] at h
  split at h
  · obtain rfl := Option.some.inj h
    exact ⟨hKept, rfl, rfl⟩
  · split at h
    · obtain ⟨hLast, hCallbacks⟩ := Ctl.uasPostSendInviteFinal_same h
      exact ⟨hKept, hLast, hCallbacks⟩
    · split at h
      · simp only [Ctl.uasPostSendFinal] at h
        split at h
        · obtain rfl := Option.some.inj h
          exact ⟨hKept, rfl, rfl⟩
        · obtain ⟨ms, -, rfl⟩ := Option.map_eq_some_iff.mp h
          exact ⟨hKept, rfl, rfl⟩
      · obtain rfl := Option.some.inj h
        exact ⟨hKept, rfl, rfl⟩

theorem Ctl.uasAnswered_same {p : TimerPolicy} {method : Method} {code : Nat} {no_ack : Bool}
    {c c' : Ctl} (h : c.uasAnswered p method code no_ack = some c') :
    c'.last_status_code = UInt16.ofNat code ∧ c'.uas_callbacks.cancel = c.uas_callbacks.cancel := by
  simp only [Ctl.uasAnswered] at h
  split at h
  · obtain rfl := Option.some.inj h
    exact ⟨rfl, rfl⟩
  · split at h
    · obtain ⟨ms, -, rfl⟩ := Option.map_eq_some_iff.mp h
      exact ⟨rfl, rfl⟩
    · split at h
      · obtain ⟨ms, -, rfl⟩ := Option.map_eq_some_iff.mp h
        exact ⟨rfl, rfl⟩
      · obtain rfl := Option.some.inj h
        exact ⟨rfl, rfl⟩

/-! ## Hashes of kept strings -/

/-- The strings the hashes of a server transaction are of. -/
def Txi.names (tp : Txi) : List Str :=
  [tp.id.call_id, tp.id.branch, tp.id.from_tag, tp.cache.to_tag]

/-- The same names with the same bytes. -/
structure Txi.SameNames (m m' : Mem) (tp tp' : Txi) : Prop where
  id : tp'.id = tp.id
  to_tag : tp'.cache.to_tag = tp.cache.to_tag
  method : tp'.cache.method_type = tp.cache.method_type
  read : ∀ s ∈ tp.names, m'.read s = m.read s

namespace Txi.SameNames

variable {m m' : Mem} {tp tp' : Txi}

theorem methodHash (h : tp.SameNames m m' tp') {method : Method} (hKnown : method ≠ .generic) :
    uasMethodHash m' tp' method = uasMethodHash m tp method := by
  have hCallId := h.read tp.id.call_id (by simp [names])
  have hBranch := h.read tp.id.branch (by simp [names])
  have hTag := h.read tp.id.from_tag (by simp [names])
  simp only [uasMethodHash, tidHash, h.id, hCallId, hBranch, hTag, if_neg hKnown]

theorem ackHash (h : tp.SameNames m m' tp') (code : Nat) :
    uasAckHash m' tp' code = uasAckHash m tp code := by
  have hCallId := h.read tp.id.call_id (by simp [names])
  have hTag := h.read tp.id.from_tag (by simp [names])
  have hToTag := h.read tp.cache.to_tag (by simp [names])
  simp only [uasAckHash, h.method, h.methodHash (by decide : Method.ACK ≠ .generic), dialogTidHash,
    dialogHash, h.id, h.to_tag, hCallId, hTag, hToTag]

theorem cancelHash (h : tp.SameNames m m' tp')
    (hCallbacks : tp'.uas_callbacks.cancel = tp.uas_callbacks.cancel) :
    tp'.cancelHash m' = tp.cancelHash m := by
  simp only [Txi.cancelHash, h.method, hCallbacks, h.methodHash (by decide : Method.CANCEL ≠ .generic)]

end Txi.SameNames

theorem Txi.Grounded.sameNames {tp tp' : Txi} (h : tp.Grounded) (hTag : tp.scratch.Holds tp.cache.to_tag)
    (hBelow : tp.scratch.KeptBelow tp'.scratch) (hId : tp'.id = tp.id)
    (hCache : tp.cache.SameButAck tp'.cache) (m m' : Mem) :
    tp.SameNames (tp.scratch.mem m) (tp'.scratch.mem m') tp' := by
  obtain ⟨hash, hCache⟩ := hCache
  refine ⟨hId, by rw [hCache], by rw [hCache], fun s hs => ?_⟩
  have hHolds : tp.scratch.Holds s := by
    simp only [Txi.names, List.mem_cons, List.not_mem_nil, or_false] at hs
    obtain rfl | rfl | rfl | rfl := hs
    · exact h.call_id
    · exact h.branch
    · exact h.from_tag
    · exact hTag
  exact hBelow.read h.top hHolds m m'

end Microsippy
