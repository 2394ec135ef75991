import Microsippy.Fits
import Microsippy.Reach

/-! # What no assertion stops

The functions of the manager that a run calls get through from a table of fit slots, up to the timer
values that do not fit.
-/

namespace Microsippy

set_option autoImplicit false

/-! ## Heaps -/

namespace Heap

theorem total_sprintf (text : Bytes) : Op.Total (sprintf text) :=
  .bind .get fun _ => .bind (.require _ _) fun _ => .bind (.modify _) fun _ => .bind (.require _ _) fun _ =>
    .bind (total_reserve _ _) fun _ => .bind .get fun _ => .pure _

theorem total_aextend (nlen start : Nat) : Op.Total (aextend nlen start) :=
  .bind .get fun _ => .bind (.require _ _) fun _ => .modify _

theorem total_extendPairs (size : Nat → Nat) (start n : Nat) (pps : List TvPair) :
    Op.Total (extendPairs size start n pps) := by
  induction pps generalizing n with
  | nil => exact .pure ()
  | cons pp pps ih => exact .bind (total_aextend _ _) fun _ => ih (n + 1)

theorem total_uriParse (m : Mem) (s : Str) : Op.Total (Uri.parse m s) :=
  .bind (total_reserve _ _) fun _ => .bind .get fun _ => .cleanup (.bind (.orElse _ _) fun _ =>
    .bind (total_extendPairs _ _ _ _) fun _ => .bind (total_extendPairs _ _ _ _) fun _ => .pure _) _

theorem total_copyRouteSet (m : Mem) (srcp : List Str) : Op.Total (copyRouteSet m srcp) := by
  cases srcp with
  | nil => exact .pure _
  | cons s srcs => exact .bind (total_reserve _ _) fun _ => total_appendAll m _

end Heap

/-! ## Slots -/

theorem total_copyUri (m : Mem) (srcp : Str) : Op.Total (copyUri m srcp) :=
  total_onScratch (Heap.total_append _ _) _

theorem total_copyTargetAddr (m : Mem) (srcp : Addr) : Op.Total (copyTargetAddr m srcp) :=
  .bind (.ite (.pure _) (total_onScratch (Heap.total_append _ _) _)) fun _ => .pure _

theorem total_printDec (n : Nat) : Op.Total (printDec n) := total_onScratch (Heap.total_sprintf _) _

theorem total_callIdPolicy (policy : IdPolicy) (inp : IdPolicyIn) : Op.Total (callIdPolicy policy inp) :=
  .bind .get fun _ => .bind (.modify _) fun _ => .orElse _ _

theorem total_prepareIds (tm : Tm) (tx_index : Nat) : Op.Total (prepareIds tm tx_index) := by
  refine .bind (.bind .get fun _ => ?_) fun _ => .bind .get fun _ => .bind (.require _ _) fun _ =>
    .bind (.modify _) fun _ => .modify _
  cases tm.id_policy with
  | some policy => exact total_callIdPolicy _ _
  | none =>
    exact .bind .get fun _ => .bind (total_onScratch (Heap.total_sprintf _) _) fun _ =>
      .bind (total_onScratch (Heap.total_sprintf _) _) fun _ => .pure _

theorem total_initUacRequest (m : Mem) (request_idp : RequestId) (request_urip : Str) (mdp : Method) :
    Op.Total (initUacRequest m request_idp request_urip mdp) :=
  .bind (total_copyUri _ _) fun _ => .bind (.modify _) fun _ => .bind (total_copyUri _ _) fun _ =>
    .bind (total_onScratch (Heap.total_uriParse _ _) _) fun _ => .bind (.modify _) fun _ => .modify _

theorem total_initUacPartiesByUri (m : Mem) (partiesp : RequestParties) (dialog_tagsp : DialogTags) :
    Op.Total (initUacPartiesByUri m partiesp dialog_tagsp) :=
  .bind (total_copyUri _ _) fun _ => .bind (.modify _) fun _ => .bind (total_copyUri _ _) fun _ =>
    .bind (.modify _) fun _ => .bind (total_copyUri _ _) fun _ => .bind (.modify _) fun _ =>
      .bind (total_copyUri _ _) fun _ => .bind (.modify _) fun _ =>
        .bind (total_copyUri _ _) fun _ => .modify _

theorem total_cloneCache (m : Mem) {srcp : Txi} (method : Method) (hUri : srcp.cache.uac.request_uri.isSome) :
    Op.Total (cloneCache m srcp method) := by
  have hParsed : Op.Total (copyParsedUri m srcp.cache.uac.request_uri) :=
    .bind (.demand hUri) fun _ => .bind (total_onScratch (Heap.total_build _ _) _) fun _ =>
      .bind (total_onScratch (Heap.total_uriParse _ _) _) fun _ => .modify _
  exact .bind (total_copyUri _ _) fun _ => .bind (.modify _) fun _ => .bind hParsed fun _ =>
    .bind (total_copyUri _ _) fun _ => .bind (.modify _) fun _ => .bind (total_copyUri _ _) fun _ =>
      .bind (.modify _) fun _ => .bind (total_copyUri _ _) fun _ => .bind (.modify _) fun _ =>
        .bind (.modify _) fun _ => .bind (total_copyUri _ _) fun _ => .bind (.modify _) fun _ =>
          .bind (.ite (total_copyUri _ _) (.pure _)) fun _ => .bind (.modify _) fun _ => .modify _

/-! ### What rests on the state of the slot -/

theorem defined_rollbackTo (cp : Option Nat) :
    Op.Defined (fun tp => tp.Rolls ∧ tp.checkpoint = cp) (rollbackTo cp) := by
  cases cp with
  | none => exact (Op.Total.pure _).defined
  | some cp =>
    refine .failWith ?_ _
    intro tp hRolls hNone
    obtain ⟨hLast, hLe⟩ := hRolls.1.last cp hRolls.2
    simp only [Op.run, Op.zoom] at hNone
    split at hNone
    · rename_i hStopped
      exact Heap.rollback_defined hLast hLe hStopped
    · cases hNone

theorem defined_releaseOutbound : Op.Defined Txi.Rolls releaseOutbound := by
  refine .getBind fun tp hRolls => .seq (fun _ _ => True) ?_ (fun _ _ _ _ _ => trivial) fun _ =>
    (Op.Total.modify _).defined
  apply (defined_rollbackTo tp.checkpoint).weaken
  rintro _ rfl
  exact ⟨hRolls, rfl⟩

theorem defined_uacFinishAbandoned : Op.Defined Txi.Rolls uacFinishAbandoned := by
  refine .seq (fun _ tp => tp.Rolls) (Op.Total.modify _).defined (fun tp _ t hRolls hRun => ?_)
    fun _ => defined_releaseOutbound
  obtain rfl := Op.modify_ok.mp hRun
  exact ⟨hRolls.room, hRolls.last⟩

/-- A request can be put together from a slot, or found not to fit. -/
structure Txi.Builds (tp : Txi) : Prop extends Txi.Rolls tp where
  saved : tp.checkpoint.isSome
  uri : tp.cache.uac.request_uri.isSome

theorem defined_buildRequest (tm : Tm) (tx_index : Nat) (bp : BuildRequestParams) :
    Op.Defined Txi.Builds (buildRequest tm tx_index bp) := by
  have hKept : ∀ {α : Type} {x : TxM α}, Op.Keeps (Txi.Steady False) x → ∀ tp a t,
      tp.cache.uac.request_uri.isSome → x.run tp = some (.ok a, t) → t.cache.uac.request_uri.isSome := by
    intro α x hx tp a t hUri hRun
    exact ((hx _ _ _ hRun).request.resolve_left id).uri.trans hUri
  refine .getBind fun tp hBuilds => ?_
  refine .seq (fun _ t => t = tp) (.assert fun _ _ => hBuilds.saved)
    (fun _ _ _ hIs hRun => (Op.assert_ok.mp hRun).2.symm.trans hIs) fun _ => ?_
  refine .seq (fun _ t => t.cache.uac.request_uri.isSome) ?_ ?_ fun _ => ?_
  · apply (defined_rollbackTo tp.checkpoint).weaken
    rintro _ rfl
    exact ⟨hBuilds.toRolls, rfl⟩
  · rintro _ a t rfl hRun
    exact hKept (steady_rollbackTo _) _ _ _ hBuilds.uri hRun
  refine .seq (fun _ t => t.cache.uac.request_uri.isSome) (total_prepareIds _ _).defined
    (fun tp a t => hKept (steady_prepareIds _ _) tp a t) fun _ => ?_
  refine .getBind fun t hUri => Op.Total.defined ?_
  exact .bind (.ite (total_printDec _) (.pure _)) fun _ =>
    .bind (.ite (.bind (total_printDec _) fun _ => .pure _) (.pure _)) fun _ => .bind (.require _ _) fun _ =>
      .bind (.ite (total_printDec _) (.pure _)) fun _ => .bind (.orElse _ _) fun _ =>
        .bind (.demand hUri) fun _ => .bind (total_onScratch (Heap.total_build _ _) _) fun _ => .modify _

/-- A checkpoint can be taken. -/
def Txi.Unmarked (tp : Txi) : Prop :=
  tp.scratch.checkpoints.length < tp.scratch.ncheckpoints

theorem Txi.Unmarked.steady {filling : Prop} {tp tp' : Txi} (h : tp.Unmarked)
    (hSteady : tp.Steady filling tp') :
    tp'.Unmarked := by
  rw [Txi.Unmarked, hSteady.heap.checkpoints, hSteady.heap.ncheckpoints]
  exact h

/-- What follows work on a slot without a checkpoint. -/
theorem Op.Total.unmarked {α β : Type} {x : TxM α} {f : α → TxM β} (hx : Op.Total x)
    (hSteady : Op.Keeps (Txi.Steady True) x) (hf : ∀ a, Op.Defined Txi.Unmarked (f a)) :
    Op.Defined Txi.Unmarked (x >>= f) :=
  .seq (fun _ => Txi.Unmarked) hx.defined (fun _ _ _ h hRun => h.steady (hSteady _ _ _ hRun)) hf

theorem defined_checkpoint : Op.Defined Txi.Unmarked (onScratch TmError.NOSPC Heap.checkpoint) := by
  intro tp hRoom hNone
  have hTaken := takeCheckpoint_run tp
  have hHas : tp.scratch.checkpoints.length < tp.scratch.ncheckpoints := hRoom
  rw [if_pos hHas, takeCheckpoint, Op.run_bind, hNone] at hTaken
  cases hTaken

/-- A checkpoint taken, and what follows. -/
theorem defined_marking {α : Type} {f : Nat → TxM α} (hf : ∀ cp, Op.Total (f cp)) :
    Op.Defined Txi.Unmarked (onScratch TmError.NOSPC Heap.checkpoint >>= f) :=
  .seq (fun _ _ => True) defined_checkpoint (fun _ _ _ _ _ => trivial) fun cp => (hf cp).defined

theorem defined_reserveUacSlot (tm : Tm) (method : Method) (localp : Addr) {targetp : Option Addr}
    (hTarget : targetp.isSome) : Op.Defined Txi.Unmarked (reserveUacSlot tm method localp targetp) := by
  refine Op.Total.unmarked (.demand hTarget) (.demand (R := Txi.Steady True) _) fun _ => ?_
  refine Op.Total.unmarked (total_copyTargetAddr _ _) (steady_copyTargetAddr _ _) fun _ => ?_
  refine Op.Total.unmarked (.ite (total_copyTargetAddr _ _) (.pure _))
    (.ite (R := Txi.Steady True) (fun _ => steady_copyTargetAddr _ _) fun _ => .pure _) fun _ => ?_
  refine Op.Total.unmarked (.ite (total_onScratch (Heap.total_reserve _ _) _) (.pure _))
    (.ite (R := Txi.Steady True) (fun _ => steady_onScratch (Heap.marked_alloc _) _)
    fun _ => .pure _) fun _ => ?_
  exact defined_marking fun _ => .bind (.modify _) fun _ => .pure _

theorem defined_fillInDialog (tpp : NewInDialogParams) (mdp : Method) (tm : Tm)
    (hTarget : tpp.request_target.target.isSome) : Op.Defined Txi.Unmarked (fillInDialog tpp mdp tm) := by
  refine Op.Total.unmarked (total_initUacRequest _ _ _ _) (filling_initUacRequest _ _ _ _) fun _ => ?_
  refine Op.Total.unmarked (total_initUacPartiesByUri _ _ _)
    (steady_initUacPartiesByUri _ _ _) fun _ => ?_
  refine Op.Total.unmarked (total_onScratch (Heap.total_copyRouteSet _ _) _)
    (steady_onScratch (Heap.marked_copyRouteSet _ _) _) fun _ => ?_
  exact Op.Total.unmarked (.modify _) (steady_modUacCache fun _ => rfl) fun _ =>
    defined_reserveUacSlot _ _ _ hTarget

theorem defined_cloneRest (m : Mem) (srcp : Txi) (parent_index : Nat) (method : Method) :
    Op.Defined Txi.Unmarked (cloneRest m srcp parent_index method) := by
  refine .seq (fun _ => Txi.Unmarked) (Op.Total.modify _).defined (fun tp _ t hRoom hRun => ?_) fun _ => ?_
  · obtain rfl := Op.modify_ok.mp hRun
    exact hRoom
  refine Op.Total.unmarked (total_copyTargetAddr _ _) (steady_copyTargetAddr _ _) fun peer => ?_
  refine .seq (fun _ => Txi.Unmarked) (Op.Total.modify _).defined (fun tp _ t hRoom hRun => ?_) fun _ =>
    defined_marking fun _ => .modify _
  obtain rfl := Op.modify_ok.mp hRun
  exact hRoom

/-! ## The table -/

section

variable {i : Nat}

theorem total_onSlot {α : Type} {x : Tm → TxM α} (hx : ∀ tm, Op.Total (x tm)) : Op.Total (onSlot i x) := by
  intro tm hNone
  simp only [Op.run, onSlot] at hNone
  split at hNone
  · exact hx tm (tm.tx i) ‹_›
  · cases hNone

theorem defined_onSlot {α : Type} {P : Txi → Prop} {x : Tm → TxM α} (hx : ∀ tm, Op.Defined P (x tm)) :
    Op.Defined (fun tm => P (tm.tx i)) (onSlot i x) := by
  intro tm hP hNone
  simp only [Op.run, onSlot] at hNone
  split at hNone
  · exact hx tm (tm.tx i) hP ‹_›
  · cases hNone

theorem Tm.Cleared.unmarked {tm : Tm} (h : tm.Cleared i) : (tm.tx i).Unmarked := by
  obtain ⟨-, tp, hReset⟩ := h
  rw [hReset]
  exact Nat.zero_lt_two

end

theorem total_allocSlot : Op.Total allocSlot := by
  intro tm
  obtain ⟨k, -, -, hIs⟩ | ⟨-, ⟨v, -, hIs⟩ | ⟨-, hIs⟩⟩ := allocSlot_cases tm
  · rw [hIs]
    exact Option.some_ne_none _
  · rw [hIs]
    exact Option.some_ne_none _
  · rw [hIs]
    exact Option.some_ne_none _

theorem total_lookupUacMethod {method_type : UInt8} {in_dialog : Bool} {mdp : Method}
    (hMethod : Method.ofByte? method_type = some mdp) (hNamed : mdp.name.length > 0) :
    Op.Total (lookupUacMethod method_type in_dialog : TmM Method) := by
  have hChecks : Op.Total (ε := TmError) (σ := Tm) do
      Op.require (¬ (in_dialog ∧ (mdp = .INVITE ∨ mdp = .ACK ∨ mdp = .CANCEL))) .INVAL
      Op.assert (mdp.name.length > 0)
      return mdp :=
    .bind (.require _ _) fun _ => .bind (.of_defined (.assert fun _ _ => hNamed)) fun _ => .pure _
  intro tm
  rw [lookupUacMethod, hMethod, Op.run_bind, Op.run_demand_some, Op.andThen_ok]
  exact hChecks tm

/-- The request of a dialog, which has all its parameters. -/
theorem total_newInDialogTransaction {tpp : NewInDialogParams} {mdp : Method} (hGiven : tpp.given)
    (hTarget : tpp.request_target.target.isSome)
    (hMethod : Method.ofByte? tpp.request_id.method_type = some mdp)
    (hNamed : mdp.name.length > 0) : Op.Total (newInDialogTransaction tpp) := by
  refine .bind (.of_defined (.assert fun _ _ => hGiven)) fun _ => .bind (.require _ _) fun _ => ?_
  refine .bind (total_lookupUacMethod hMethod hNamed) fun mdp => .of_defined ?_
  refine .seq Tm.Cleared total_allocSlot.defined (fun _ _ _ _ => allocSlot_cleared) fun i => ?_
  refine .seq (fun _ _ => True) (.failWith ?_ _) (fun _ _ _ _ _ => trivial) fun addrs => Op.Total.defined ?_
  · apply (defined_onSlot fun tm => (defined_fillInDialog tpp mdp tm hTarget).cleanup Txi.fini).weaken
    exact fun tm hCleared => hCleared.unmarked
  · refine .bind (.bind (.modify _) fun _ => total_onSlot fun _ => .modify _) fun _ =>
      .bind ?_ fun _ => .pure _
    exact .cleanup ((total_onSlot fun _ => total_prepareIds _ _).failWith _) _

/-! ## Clones -/

/-- A transaction with a request URI, in a slot that no allocation touches. -/
structure Txi.Source (tp : Txi) : Prop extends Ctl.Safe tp.toCtl where
  uri : tp.cache.uac.request_uri.isSome

theorem defined_cloneInto (i p : Nat) (method : Method) :
    Op.Defined (fun tm => tm.Cleared i ∧ (tm.tx p).cache.uac.request_uri.isSome) (cloneInto i p method) := by
  refine .getBind fun tm hSource => ?_
  refine .seq (fun _ t => (t.tx i).Unmarked)
    (total_onSlot fun t => (total_cloneCache _ method hSource.2).cleanup Txi.fini).defined ?_ fun _ => ?_
  · rintro _ u t rfl hRun
    obtain ⟨tp, hPart, rfl⟩ := onSlot_ok.mp hRun
    rw [Tm.set_same]
    exact hSource.1.unmarked.steady (filling_cloneCache _ _ _ _ _ _ (Op.cleanup_ok.mp hPart))
  refine .seq (fun _ t => (t.tx i).Unmarked) (Op.Total.modify _).defined
    (fun t _ t' hRoom hRun => ?_) fun _ =>
    (defined_onSlot fun t => defined_cloneRest _ _ _ _).cleanup _
  obtain rfl := Op.modify_ok.mp hRun
  rw [Tm.activate, Tm.set_same]
  exact hRoom

theorem defined_cloneUacInvite (p : Nat) (method : Method) :
    Op.Defined (fun tm => (tm.tx p).Source) (cloneUacInvite p method) := by
  refine .seq (fun i tm => tm.Cleared i ∧ (tm.tx p).cache.uac.request_uri.isSome)
    total_allocSlot.defined ?_ fun i => ?_
  · intro tm i t hSource hRun
    obtain ⟨hLeaves, -⟩ := allocSlot_leaves hSource.toSafe.not_takes hRun
    exact ⟨allocSlot_cleared hRun, hLeaves.stays (P := fun tp => tp.cache.uac.request_uri.isSome)
      (fun _ => Iff.rfl) hSource.uri⟩
  · exact .seq (fun _ _ => True) (defined_cloneInto i p method) (fun _ _ _ _ _ => trivial) fun _ =>
      (Op.Total.pure _).defined

theorem cloneUacInvite_builds {tm tm' : Tm} {p i : Nat} {method : Method}
    (hRun : (cloneUacInvite p method).run tm = some (.ok i, tm')) : (tm'.tx i).Builds := by
  simp only [cloneUacInvite, cloneInto, filling, leaking, Op.bind_ok, Op.pure_ok, Op.get_ok, Op.modify_ok,
    Op.cleanup_ok, onSlot_ok] at hRun
  obtain ⟨_, t, hAlloc, _, _, ⟨_, _, ⟨rfl, rfl⟩, _, _, ⟨tp, hFill, rfl⟩, _, _, rfl, tp', hRest,
    rfl⟩, rfl, rfl⟩ := hRun
  obtain ⟨tp₁, id, hSteady, rfl⟩ := cloneRest_ok hRest
  have hEntered : tp₁.Requests method ∧ tp₁.scratch.ncheckpoints = txNcheckpoints := by
    rw [Tm.activate, Tm.set_same, Tm.set_same] at hSteady
    have hFirst := (allocSlot_cleared hAlloc).filled (filling_cloneCache _ _ _ _ _ _ hFill)
    refine ⟨Txi.Requests.steady ?_ hSteady, hSteady.heap.ncheckpoints.trans hFirst.1⟩
    exact (cloneCache_ok hFill).2
  have hRolls := Txi.marked_rolls hEntered.2
  rw [Tm.set_same]
  exact ⟨⟨hRolls.room, hRolls.last⟩, rfl, hEntered.1.2⟩

theorem defined_sendCancel (p : Nat) : Op.Defined (fun tm => (tm.tx p).Source) (sendCancel p) := by
  refine .seq (fun i tm => (tm.tx i).Builds) (defined_cloneUacInvite p .CANCEL)
    (fun _ _ _ _ hRun => cloneUacInvite_builds hRun) fun i => ?_
  refine .seq (fun _ tm => (tm.tx i).Builds) (total_onSlot fun _ => .modify _).defined
    (fun tm _ t hBuilds hRun => ?_)
    fun _ => ?_
  · obtain ⟨tp, hPart, rfl⟩ := onSlot_ok.mp hRun
    obtain rfl := Op.modify_ok.mp hPart
    rw [Tm.set_same]
    exact ⟨⟨hBuilds.room, hBuilds.last⟩, hBuilds.saved, hBuilds.uri⟩
  · refine .seq (fun _ _ => True) (((defined_onSlot fun tm => defined_buildRequest tm i
      {}).failWith _).cleanup _)
      (fun _ _ _ _ _ => trivial) fun _ => Op.Total.defined ?_
    exact .bind (total_onSlot fun _ => .modify _) fun _ => total_onSlot fun _ => .modify _

/-! ## Giving an INVITE up -/

/-- An INVITE with its record, given up or not. -/
structure Txi.Inviting (tp : Txi) : Prop extends Txi.Source tp where
  record : tp.invite.isSome

theorem defined_startCancelOrFinish (i : Nat) :
    Op.Defined (fun tm => tm.Fit ∧ (tm.tx i).Inviting) (startCancelOrFinish i) := by
  refine .seq (fun _ => Tm.Fit) (.attempt ?_) (fun tm r t h hRun => ?_) fun r => ?_
  · refine .getBind fun tm h => ?_
    refine .seq (fun _ t => t = tm) (.demand fun _ hIs => h.2.record)
      (fun _ _ _ hIs hRun => (Op.demand_ok.mp hRun).2.symm.trans hIs) fun iv => ?_
    refine .ite (fun _ => (Op.Total.pure _).defined) fun _ => .ite (fun _ => ?_) fun _ => ?_
    · exact (total_onSlot fun _ => .modify _).defined
    · exact (defined_sendCancel i).weaken fun t hIs => hIs ▸ h.2.toSource
  · exact (Op.Keeps.attempt (fit_uacStartCancel i)).holds h.1 hRun
  · cases r with
    | ok u => exact (Op.Total.pure _).defined
    | error e =>
      exact (defined_onSlot fun _ => defined_uacFinishAbandoned).weaken fun tm h => (h.slots i).toRolls

theorem Tm.Fit.inviting {tm : Tm} {i : Nat} (h : tm.Fit) (hActive : (tm.tx i).active = true)
    (hLive : (tm.tx i).state ≠ .TERMINATED) (hAbandoned : (tm.tx i).abandoned = true)
    (hRecord : (tm.tx i).invite.isSome) : (tm.tx i).Inviting := by
  obtain ⟨hMethod, hUri⟩ := (h.slots i).record hRecord
  have hAlone := h.invite i hMethod
  refine ⟨⟨⟨hActive, ?_, hAlone⟩, hUri⟩, hRecord⟩
  rw [Ctl.evictable, hActive, hAlone, hAbandoned]
  simp [hLive]

/-- An INVITE that is not given up yet. -/
structure Txi.Open (tp : Txi) : Prop where
  active : tp.active = true
  live : tp.state ≠ .TERMINATED
  kept : tp.abandoned = false
  record : tp.invite.isSome

theorem fit_abandoned {tm : Tm} {i : Nat} (h : tm.Fit) (hOpen : (tm.tx i).Open) :
    (tm.set i { tm.tx i with toCtl := (tm.tx i).abandon }).Fit ∧
      ({ tm.tx i with toCtl := (tm.tx i).abandon } : Txi).Inviting := by
  have hFit : (tm.set i { tm.tx i with toCtl := (tm.tx i).abandon }).Fit :=
    h.steady (Txi.steady_ctl (Ctl.stays_abandon _))
  have hRecord : (tm.tx i).abandon.invite.isSome := Option.isSome_map.trans hOpen.record
  refine ⟨hFit, ?_⟩
  have hThere := hFit.inviting (i := i)
  rw [Tm.set_same] at hThere
  exact hThere hOpen.active hOpen.live rfl hRecord

theorem defined_uacAbandon (i : Nat) : Op.Defined (fun tm => tm.Fit ∧ (tm.tx i).Open) (uacAbandon i) := by
  refine .getBind fun tm h => ?_
  refine .seq (fun _ t => t = tm) (.assert fun _ _ => by rw [h.2.kept]; rfl)
    (fun _ _ _ hIs hRun => (Op.assert_ok.mp hRun).2.symm.trans hIs) fun _ => ?_
  refine .seq (fun _ t => t.Fit ∧ (t.tx i).Inviting) (total_onSlot fun _ => .modify _).defined ?_ fun _ => ?_
  · rintro _ u t rfl hRun
    obtain ⟨tp, hPart, rfl⟩ := onSlot_ok.mp hRun
    obtain rfl := Op.modify_ok.mp hPart
    obtain ⟨hFit, hInviting⟩ := fit_abandoned h.1 h.2
    refine ⟨hFit, ?_⟩
    rw [Tm.set_same]
    exact hInviting
  · refine .ite (fun _ => ?_) fun _ => defined_startCancelOrFinish i
    exact (defined_onSlot fun _ => defined_uacFinishAbandoned).weaken fun tm h => (h.1.slots i).toRolls

/-! ### The timers of an INVITE that is given up -/

/-- Slot `i` has the timer policy it had. -/
def Tm.SameTimers (i : Nat) (tm tm' : Tm) : Prop := (tm'.tx i).timers = (tm.tx i).timers

section

variable {i : Nat}

instance : IsPreorder Tm (Tm.SameTimers i) where
  refl _ := rfl
  trans _ _ _ h h' := Eq.trans h' h

theorem Tm.Leaves.sameTimers {tm tm' : Tm} (h : tm.Leaves i tm') : tm.SameTimers i tm' := by
  have hBare : (tm'.tx i).bare.timers = (tm.tx i).bare.timers := by rw [h]
  exact hBare

theorem timers_onSlot {α : Type} {x : Tm → TxM α} (hx : ∀ tm, Op.Keeps (Txi.Steady False) (x tm)) :
    Op.Keeps (Tm.SameTimers i) (onSlot i x) := by
  intro tm r tm' hRun
  obtain ⟨tp, hPart, rfl⟩ := onSlot_some hRun
  rw [Tm.SameTimers, Tm.set_same]
  exact (hx tm _ _ _ hPart).timers

theorem timers_sendCancel : Op.KeepsFrom (fun tm => (tm.tx i).Safe) (Tm.SameTimers i) (sendCancel i) := by
  have hOther {α : Type} {c : Nat} (hc : i ≠ c) (x : Tm → TxM α) : Op.Keeps (Tm.SameTimers i) (onSlot c x) :=
    (leaves_onSlot hc x).mono fun _ _ h => h.sameTimers
  refine .seq (fun c _ => i ≠ c) (fun tm r tm' hSafe hRun => ?_)
    (fun tm c tm' hSafe hRun => (makes_cloneUacInvite _ _).other hSafe.not_takes hRun) fun c =>
    Op.KeepsFrom.ofProp fun hc => ?_
  · exact ((makes_cloneUacInvite _ _).from _ _ _ hSafe.not_takes hRun).sameTimers
  · refine .bind (hOther hc _) fun _ => .bind ?_ fun _ =>
      .bind (timers_onSlot fun _ => steady_modCtl fun c => ?_)
      fun _ => hOther hc _
    · exact (Op.Keeps.failWith (hOther hc _) _).cleanup fun tm => (tm.leaves_set _ hc).sameTimers
    · exact IsTrans.trans _ _ _ (Ctl.stays_onInvite _ c) (Ctl.stays_clearInviteTimeout _)

theorem timers_startCancelOrFinish :
    Op.KeepsFrom (fun tm => (tm.tx i).Safe) (Tm.SameTimers i) (startCancelOrFinish i) := by
  refine .seq (fun _ _ => True) (.attempt ?_) (fun _ _ _ _ _ => trivial) fun r => Op.Keeps.from ?_
  · refine .getBind fun tm hSafe => ?_
    refine .seq (fun _ t => (t.tx i).Safe) (Op.Keeps.demand _).from (fun t iv t' hIs hRun => ?_) fun iv => ?_
    · obtain ⟨-, rfl⟩ := Op.demand_ok.mp hRun
      exact hIs ▸ hSafe
    · refine .ite (fun _ => (Op.Keeps.pure _).from) fun _ => .ite (fun _ => ?_) fun _ => timers_sendCancel
      exact (timers_onSlot fun _ => steady_modCtl (Ctl.stays_onInvite _)).from
  · cases r with
    | ok u => exact .pure _
    | error e => exact timers_onSlot fun _ => steady_uacFinishAbandoned

end

theorem uacAbandon_leaves {tm tm' : Tm} {i : Nat} {u : Unit} (hFit : tm.Fit) (hOpen : (tm.tx i).Open)
    (hRun : (uacAbandon i).run tm = some (.ok u, tm')) :
    (tm'.tx i).timers = (tm.tx i).timers ∧
      ((tm.tx i).retransmit_count = 0 → (tm'.tx i).state = .TERMINATED) := by
  obtain ⟨-, hInviting⟩ := fit_abandoned hFit hOpen
  rw [uacAbandon, Op.run_bind, Op.run_get, Op.andThen_ok] at hRun
  obtain ⟨_, _, hAssert, hRun⟩ := Op.bind_ok.mp hRun
  obtain ⟨-, rfl⟩ := Op.assert_ok.mp hAssert
  obtain ⟨_, _, hFirst, hRun⟩ := Op.bind_ok.mp hRun
  obtain ⟨tp, hPart, rfl⟩ := onSlot_ok.mp hFirst
  obtain rfl := Op.modify_ok.mp hPart
  split at hRun
  · obtain ⟨tp, hFinish, rfl⟩ := onSlot_ok.mp hRun
    have hSteady : Txi.Steady False _ tp := steady_uacFinishAbandoned _ _ _ hFinish
    rw [Tm.set_same] at hSteady hFinish
    rw [Tm.set_same]
    refine ⟨hSteady.timers, fun _ => ?_⟩
    rw [uacFinishAbandoned, Op.run_bind, modCtl, Op.run_modify, Op.andThen_ok] at hFinish
    obtain ⟨scratch, rfl⟩ := releaseOutbound_some hFinish
    rfl
  · rename_i hSent
    refine ⟨?_, fun hNot => absurd hNot hSent⟩
    have hSafe : (((tm.set i { tm.tx i with toCtl := (tm.tx i).abandon }).tx i)).Safe := by
      rw [Tm.set_same]
      exact hInviting.toSafe
    have hSame := timers_startCancelOrFinish _ _ _ hSafe hRun
    rwa [Tm.SameTimers, Tm.set_same] at hSame

/-! ## Children -/

/-- The chain of active children of slot `p` ends within as many links. -/
def Tm.EndsIn (tm : Tm) : Nat → Nat → Prop
  | 0, _ => False
  | fuel + 1, p => ∀ c, (tm.tx p).child_index = some c → (tm.tx c).active = true → tm.EndsIn fuel c

theorem defined_txTerminateChild (fuel p : Nat) :
    Op.Defined (fun tm => tm.Fit ∧ tm.EndsIn fuel p) (txTerminateChild fuel p) := by
  induction fuel generalizing p with
  | zero => exact fun tm h => absurd h.2 id
  | succ fuel ih =>
    refine .getBind fun tm h => ?_
    obtain ⟨hFit, hEnds⟩ := h
    split
    · exact (Op.Total.pure _).defined
    · rename_i c hLink
      refine .seq (fun _ t => t = tm) (.assert fun _ _ => hFit.child p c hLink)
        (fun _ _ _ hIs hRun => (Op.assert_ok.mp hRun).2.symm.trans hIs) fun _ => ?_
      refine .seq (fun _ _ => True) (.ite (fun hActive => ?_) fun _ => (Op.Total.pure _).defined)
        (fun _ _ _ _ _ => trivial) fun _ => (total_onSlot fun _ => .modify _).defined
      refine .seq (fun _ => Tm.Fit) ((ih c).weaken ?_) ?_ fun _ => ?_
      · rintro _ rfl
        exact ⟨hFit, hEnds c hLink hActive⟩
      · rintro _ u t rfl hRun
        exact (fit_txTerminateChild fuel c).holds hFit hRun
      · refine Op.Defined.weaken (P := fun t => (t.tx c).Rolls) ?_ fun t hThere => (hThere.slots c).toRolls
        refine defined_onSlot fun _ => .seq (fun _ => Txi.Rolls) (Op.Total.modify _).defined
          (fun tp _ t hRolls hRun => ?_)
          fun _ => defined_releaseOutbound
        obtain rfl := Op.modify_ok.mp hRun
        exact ⟨hRolls.room, hRolls.last⟩

end Microsippy
