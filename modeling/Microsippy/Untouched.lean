import Microsippy.Reach
import Microsippy.Owners
import Microsippy.Reentry

/-! # Slots that a step leaves alone

What a call of the application, a turn of the run or the return of a callback can do something to, told
from the state before it, and that every other slot holds what it held and is told nothing of.
-/

namespace Microsippy

set_option autoImplicit false

variable {j : Nat}

/-! ## Operations of an owner -/

/-- Slot `j` of the manager holds what it held. -/
def Sys.Leaves (j : Nat) (s s' : Sys) : Prop := s.tm.Leaves j s'.tm

instance (j : Nat) : IsPreorder Sys (Sys.Leaves j) where
  refl _ := rfl
  trans _ _ _ h h' := Eq.trans h' h

instance (d : Nat) : Op.Stable (fun s : Sys => (s.tm.tx j).Hushed d) (Sys.Leaves j) :=
  ⟨fun _ _ h hHushed => Op.Stable.stays (P := fun tm : Tm => (tm.tx j).Hushed d) _ _ h hHushed⟩

/-- A dialog's server transaction. -/
def Ctl.OwnedBy (d : Nat) (c : Ctl) : Prop := c.role = .UAS ∧ c.uas_owner = some d

theorem Ctl.hushed_of_not_owned {d : Nat} {c : Ctl} (h : ¬ c.OwnedBy d) : c.Hushed d :=
  fun hRole hOwner => absurd ⟨hRole, hOwner⟩ h

instance (d : Nat) : Op.Stable (fun s : Sys => ¬ (s.tm.tx j).OwnedBy d) (Sys.Leaves j) :=
  ⟨fun _ _ h hNot => Tm.Leaves.stays (P := fun tp => ¬ tp.OwnedBy d) h (fun _ => Iff.rfl) hNot⟩

theorem onTm_leaves {α : Type} {P : Tm → Prop} {x : TmM α} (hx : Op.KeepsFrom P (Tm.Leaves j) x) :
    Op.KeepsFrom (fun s : Sys => P s.tm) (Sys.Leaves j) (onTm x) := by
  intro s r s' hP hRun
  obtain ⟨tm, hPart, rfl⟩ := Op.zoom_some.mp hRun
  exact hx _ _ _ hP hPart

theorem uasSendAt_none {index d : Nat} {tm tm' : Tm} {r : Except TmError Unit}
    (h : (tm.tx index).Hushed d) (hRun : (uasSendAt index d TIME_NONE).run tm = some
    (r, tm')) : tm' = tm := by
  obtain ⟨hFound, -, rfl⟩ | ⟨-, -, rfl⟩ := onUas_some hRun
  · obtain ⟨-, -, hRole, hOwner⟩ := uasLookup_isSome.mp hFound
    rw [← h hRole (hOwner.resolve_left (by simp))]
    exact Tm.set_self _ _
  · rfl

theorem hush_leaves (index d : Nat) :
    Op.KeepsFrom (fun tm => (tm.tx j).Hushed d) (Tm.Leaves j) (uasSendAt index d TIME_NONE) := by
  intro tm r tm' h hRun
  by_cases hj : j = index
  · subst hj
    obtain rfl := uasSendAt_none h hRun
    exact Std.Refl.refl _
  · obtain ⟨-, -, rfl⟩ | ⟨-, -, rfl⟩ := onUas_some hRun
    · exact tm.leaves_set _ hj
    · exact Std.Refl.refl _

theorem getDialog_leaves (d : Nat) : Op.Keeps (Sys.Leaves j) (getDialog d) := .bind .get fun _ => .demand _

theorem modDialog_leaves (d : Nat) (f : Dialog → Dialog) : Op.Keeps (Sys.Leaves j) (modDialog d f) :=
  .bind (getDialog_leaves d) fun _ => .modify fun _ => rfl

theorem dialogUasAcked_leaves (d : Nat) :
    Op.KeepsFrom (fun s => (s.tm.tx j).Hushed d) (Sys.Leaves j) (dialogUasAcked d) := by
  refine .bind (getDialog_leaves d).from fun dp => .bind (modDialog_leaves d _).from fun _ => ?_
  cases dp.invite_index with
  | none => exact (Op.Keeps.pure _).from
  | some index => exact .bind (onTm_leaves (hush_leaves index d)).attempt fun _ => (Op.Keeps.pure _).from

theorem dialogEnd_leaves (d : Nat) (cbp : Option UacCallbacks) :
    Op.KeepsFrom (fun s => ¬ s.tm.Takes j ∧ (s.tm.tx j).Hushed d) (Sys.Leaves j) (dialogEnd d cbp) := by
  refine .seq (fun _ s => ¬ s.tm.Takes j ∧ (s.tm.tx j).Hushed d) (getDialog_leaves d).from
    (fun s dp s' hBoth hRun => ?_) fun dp => .requireBind fun _ => ?_
  · obtain ⟨_, _, hGet, hRun⟩ := Op.bind_ok.mp hRun
    obtain ⟨rfl, rfl⟩ := Op.get_ok.mp hGet
    obtain ⟨-, rfl⟩ := Op.demand_ok.mp hRun
    exact hBoth
  · refine .seq (fun _ s => (s.tm.tx j).Hushed d) (fun s r s' hBoth hRun => ?_) (fun s k s' hBoth hRun => ?_)
      fun k => .bind (modDialog_leaves d _).from fun _ => .bind (dialogUasAcked_leaves d) fun _ =>
        (Op.Keeps.pure _).from
    · exact onTm_leaves (makes_newInDialogTransaction _).from _ _ _ hBoth.1 hRun
    · have hLeaves := onTm_leaves (makes_newInDialogTransaction _).from _ _ _ hBoth.1 hRun
      exact Op.Stable.stays (P := fun s : Sys => (s.tm.tx j).Hushed d) _ _ hLeaves hBoth.2

theorem dialogDtor_leaves (d : Nat) :
    Op.KeepsFrom (fun s => ¬ (s.tm.tx j).OwnedBy d) (Sys.Leaves j) (dialogDtor d) := by
  refine .bind (getDialog_leaves d).from fun dp => ?_
  have hGone : Op.Keeps (Sys.Leaves j) (Op.modify (ε := TmError)
    (Sys.setDialog d none)) := .modify fun _ => rfl
  cases dp.invite_index with
  | none => exact hGone.from
  | some index =>
    refine .bind ((dialogUasAcked_leaves d).mono fun _ h => Ctl.hushed_of_not_owned h) fun _ =>
      .bind (Op.KeepsFrom.attempt ?_) fun _ => hGone.from
    refine onTm_leaves (P := fun tm => ¬ (tm.tx j).OwnedBy d) fun tm r tm' hNot hRun => ?_
    obtain ⟨hFound, -, rfl⟩ | ⟨-, -, rfl⟩ := onUas_some hRun
    · refine tm.leaves_set _ fun hj => hNot ?_
      obtain ⟨-, -, hRole, hOwner⟩ := uasLookup_isSome.mp (hj ▸ hFound)
      exact ⟨hRole, hOwner.resolve_left (by simp)⟩
    · exact Std.Refl.refl _

theorem dialogAcceptUasBye_leaves (d tx_index : Nat) (msg : Msg) :
    Op.KeepsFrom (fun s => (s.tm.tx j).Hushed d) (Sys.Leaves j) (dialogAcceptUasBye d tx_index msg) :=
  .bind Op.Keeps.get.from fun _ => .bind (getDialog_leaves d).from fun _ =>
    .bind (Op.Keeps.require _ _).from fun _ =>
    .bind (Op.Keeps.require _ _).from fun _ => .bind (Op.Keeps.require _ _).from fun _ =>
      .bind (modDialog_leaves d _).from fun _ => dialogUasAcked_leaves d

theorem addDialog_leaves (dp : Dialog) : Op.Keeps (Sys.Leaves j) (addDialog dp) :=
  .bind .get fun _ => .bind (.modify fun _ => rfl) fun _ => .pure _

theorem dialogUacCtor_leaves (index : Nat) (msg : Msg) : Op.Keeps (Sys.Leaves j) (dialogUacCtor index msg) :=
  .failWith (.bind .get fun _ => .bind (keeps_onLocalHeap _ _) fun _ => addDialog_leaves _) _

theorem dialogUasCtor_leaves {i : Nat} (hj : j ≠ i) (rpp : UasResponseParams) :
    Op.Keeps (Sys.Leaves j) (dialogUasCtor i rpp) := by
  refine .failWith (.bind (.require _ _) fun _ => .bind .get fun s => .bind (.orElse _ _) fun tp => ?_) _
  refine .bind (keeps_onLocalHeap _ _) fun tpp => .bind ?_ fun _ => .bind .get fun s =>
    .bind ?_ fun _ => addDialog_leaves _
  · exact fun s r s' hRun => onTm_leaves (P := fun _ => True)
      (leaves_sendUasResponse hj rpp).from s r s' trivial hRun
  · intro s r s' hRun
    obtain ⟨tm, hPart, rfl⟩ := Op.zoom_some.mp hRun
    obtain ⟨-, -, rfl⟩ | ⟨-, -, rfl⟩ := onUas_some hPart
    · exact Tm.leaves_set _ _ hj
    · exact Std.Refl.refl _

/-- Nothing of the manager has changed. -/
def Sys.SameTm (s s' : Sys) : Prop := s'.tm = s.tm

instance : IsPreorder Sys Sys.SameTm where
  refl _ := rfl
  trans _ _ _ h h' := Eq.trans h' h

instance (d : Nat) : Op.Stable (fun s : Sys => ∀ k, (s.tm.tx k).Hushed d) Sys.SameTm :=
  ⟨fun s s' h hHushed => by rwa [show s'.tm = s.tm from h]⟩

/-- A dialog whose INVITE is stopped already has nothing more to stop. -/
theorem dialogUasAcked_hushed (d : Nat) :
    Op.KeepsFrom (fun s => ∀ k, (s.tm.tx k).Hushed d) Sys.SameTm (dialogUasAcked d) := by
  have hThere : Op.Keeps Sys.SameTm (getDialog d) := .bind .get fun _ => .demand _
  refine .bind hThere.from fun dp =>
    .bind (Op.Keeps.from (.bind hThere fun _ => .modify fun _ => rfl)) fun _ => ?_
  cases dp.invite_index with
  | none => exact (Op.Keeps.pure _).from
  | some index =>
    refine .bind (Op.KeepsFrom.attempt fun s r s' hHushed hRun => ?_) fun _ => (Op.Keeps.pure _).from
    obtain ⟨tm, hPart, rfl⟩ := Op.zoom_some.mp hRun
    exact uasSendAt_none (hHushed index) hPart

theorem dialogUasTimeout_hushed {d : Nat} {s s' : Sys} {r : Except TmError (Option Bool)}
    (hHushed : ∀ k, (s.tm.tx k).Hushed d) (hRun : (dialogUasTimeout d).run s = some (r, s')) :
    s'.tm = s.tm ∧ (r = .ok (some false) →
      ∃ dp, s.dialogs d = some dp ∧ dp.ack_pending = true ∧ dp.invite_callbacks.no_ack = false) := by
  cases hThere : s.dialogs d with
  | none =>
    simp only [dialogUasTimeout, getDialog, Op.run_bind, Op.run_get, Op.andThen_ok, hThere] at hRun
    cases hRun
  | some dp =>
    simp only [dialogUasTimeout, getDialog, Op.run_bind, Op.run_get, Op.andThen_ok, hThere,
      Op.run_demand_some] at hRun
    split at hRun
    · obtain ⟨rfl, rfl⟩ := Prod.mk.inj (Option.some.inj hRun)
      exact ⟨rfl, fun h => by cases h⟩
    · rename_i hPending
      rw [Op.run_bind] at hRun
      cases hAcked : (dialogUasAcked d).run s with
      | none =>
        rw [hAcked] at hRun
        cases hRun
      | some out =>
        obtain ⟨r₁, s₁⟩ := out
        obtain rfl := Sys.dialogUasAcked_ok hAcked
        rw [hAcked] at hRun
        obtain ⟨rfl, rfl⟩ := Prod.mk.inj (Option.some.inj hRun)
        refine ⟨dialogUasAcked_hushed d _ _ _ hHushed hAcked, fun hAsks => ⟨dp, rfl, ?_, ?_⟩⟩
        · simp only [Bool.or_eq_true, Bool.not_eq_true', not_or, Bool.not_eq_false] at hPending
          exact hPending.2
        · exact Option.some.inj (Except.ok.inj hAsks)

/-! ## Incoming requests -/

/-- The server transaction an incoming request is for: that of an ACK, that of a CANCEL, or its own. -/
def Tm.findUas (tm : Tm) (msg : Msg) (method : Method) (tid : Tid) : Option Nat :=
  match (if method = .ACK then findUasAckTransaction tm msg tid else none),
    (if method = .CANCEL then findUasCancelTransaction tm tid else none) with
  | some i, _ => some i
  | none, some i => some i
  | none, none => findUasTransaction tm tid

/-- The slot a request is found to be for. -/
def Incoming.index : Incoming → Option Nat
  | .ack2xx i _ | .ack i | .cancel i _ | .retransmit i => some i
  | .new => none

theorem handleIncomingRequest_leaves {now : UInt64} {msg : Msg} {method : Method} {tid : Tid} {tm tm' : Tm}
    {r : Except TmError Incoming} (hNot : tm.findUas msg method tid ≠ some j)
    (hRun : (handleIncomingRequest now msg method tid).run tm = some (r, tm')) :
    tm.Leaves j tm' ∧ ∀ q, r = .ok q → q.index ≠ some j := by
  have hSet : ∀ {i : Nat} (x : Tm → TxM Unit) (q : Incoming), i ≠ j → q.index = some i →
      (onSlot i x >>= fun _ => (pure q : TmM Incoming)).run tm = some (r, tm') →
        tm.Leaves j tm' ∧ ∀ q, r = .ok q → q.index ≠ some j := by
    intro i x q hi hIndex hRun
    refine ⟨Op.Keeps.bind (leaves_onSlot (Ne.symm hi) x) (fun _ => .pure _) _ _ _ hRun, ?_⟩
    rintro q' rfl
    obtain ⟨_, _, -, hRun⟩ := Op.bind_ok.mp hRun
    obtain ⟨rfl, -⟩ := Op.pure_ok.mp hRun
    rw [hIndex]
    exact fun h => hi (Option.some.inj h)
  rw [handleIncomingRequest, Op.run_bind, Op.run_get, Op.andThen_ok] at hRun
  simp only [Tm.findUas] at hNot
  dsimp only at hRun
  split at hRun
  · rename_i i _ _ hAck
    simp only [hAck, ne_eq, Option.some.injEq] at hNot
    split at hRun
    · exact hSet _ _ hNot rfl hRun
    · exact hSet _ _ hNot rfl hRun
  · rename_i i _ hAck hCancel
    simp only [hAck, hCancel, ne_eq, Option.some.injEq] at hNot
    obtain ⟨rfl, rfl⟩ := Prod.mk.inj (Option.some.inj hRun)
    refine ⟨Std.Refl.refl _, fun q hq => ?_⟩
    obtain rfl := Except.ok.inj hq
    exact fun h => hNot (Option.some.inj h)
  · rename_i i hAck hCancel hFound
    simp only [hAck, hCancel, hFound, ne_eq, Option.some.injEq] at hNot
    exact hSet _ _ hNot rfl hRun
  · refine ⟨Op.Keeps.bind (.require _ _) (fun _ => .pure _) _ _ _ hRun, ?_⟩
    rintro q rfl
    obtain ⟨_, _, -, hRun⟩ := Op.bind_ok.mp hRun
    obtain ⟨rfl, -⟩ := Op.pure_ok.mp hRun
    exact fun h => by cases h

/-! ## What turns reach -/

namespace Sys

/-- Timer L of slot `i` is due, and the BYE of a dialog that does not ask takes slot `j`. -/
structure ByeTakes (s : Sys) (now : UInt64) (i j : Nat) : Prop where
  due : (s.tm.tx i).timerDue now = true
  timerL : (s.tm.tx i).timer.type = .L
  ends : ∃ d dp, (s.tm.tx i).uas_owner = some d ∧ s.dialogs d = some dp ∧ dp.ack_pending = true ∧
    dp.invite_callbacks.no_ack = false
  takes : (s.tm.set i { s.tm.tx i with toCtl := (s.tm.tx i).uasMarkTerminated }).Takes j

/-- A server's turn does something to slot `j`. -/
inductive ServerReaches (s : Sys) (now : UInt64) (i j : Nat) : Prop
  /-- The turn of the slot itself comes to something. -/
  | own (hj : j = i) (h : (s.tm.tx i).timerDue now = true ∨
      (s.tm.tx i).state ≠ .TERMINATED ∧ (s.tm.tx i).notSending now = false)
  | bye (h : s.ByeTakes now i j)

/-- The turn of a slot does something to slot `j`. -/
def TurnReaches (s : Sys) (now : UInt64) (i j : Nat) : Prop :=
  i < s.tm.max_transactions ∧ (s.tm.tx i).active = true ∧
    ((s.tm.tx i).role = .UAC ∧ s.tm.ClientReaches now i j ∨ (s.tm.tx i).role = .UAS ∧ s.ServerReaches now i j)

end Sys

/-! ## What a step tells of a slot -/

/-- What is sent or told for slot `j`. -/
def Event.about (j : Nat) : Event → Bool
  | .send i _ _ _ _ | .response i _ _ | .timeout i _ _ | .noAck i _ | .uasCancel i _ => i == j
  | _ => false

namespace World

/-- Slot `j` holds what it held, and nothing is sent or told for it. -/
structure Leaves (j : Nat) (w v : World) : Prop where
  slot : w.tm.Leaves j v.tm
  told : v.log.filter (Event.about j) = w.log.filter (Event.about j)

instance (j : Nat) : IsPreorder World (Leaves j) where
  refl _ := ⟨rfl, rfl⟩
  trans _ _ _ h h' := ⟨IsTrans.trans _ _ _ h.slot h'.slot, h'.told.trans h.told⟩

/-- Whatever comes of a state, slot `j` is left alone. -/
def Leaving (j : Nat) (w : World) (x : Option World) : Prop := ∀ v, x = some v → w.Leaves j v

variable {w u v : World}

theorem after_some {α : Type} {x : SysM α} {k : Except TmError α → World → Option World}
    (h : w.after x k = some v) :
    ∃ r s, x.run w.toSys = some (r, s) ∧ k r { w with toSys := s } = some v := by
  rw [World.after] at h
  cases hRun : x.run w.toSys with
  | none =>
    rw [hRun] at h
    cases h
  | some out =>
    rw [hRun] at h
    exact ⟨_, _, rfl, h⟩

theorem after_onTm {α : Type} {x : TmM α} {k : Except TmError α → World → Option World}
    (h : w.after (onTm x) k = some v) :
    ∃ r tm, x.run w.tm = some (r, tm) ∧ k r { w with tm } = some v := by
  obtain ⟨r, s, hRun, h⟩ := after_some h
  obtain ⟨tm, hPart, rfl⟩ := Op.zoom_some.mp hRun
  exact ⟨r, tm, hPart, h⟩

theorem Leaves.leaving (h : w.Leaves j v) : Leaving j w (some v) := by
  intro v' hv
  obtain rfl := Option.some.inj hv
  exact h

theorem Leaves.andThen {x : Option World} (h : w.Leaves j u) (hx : Leaving j u x) : Leaving j w x :=
  fun v hv => IsTrans.trans _ _ _ h (hx v hv)

theorem leaving_none : Leaving j w none := fun _ hv => by cases hv

theorem leaves_push (f : Frame) : w.Leaves j (w.push f) := ⟨rfl, rfl⟩

theorem leaves_stack (stack : List Frame) : w.Leaves j { w with stack } := ⟨rfl, rfl⟩

theorem leaves_emit {e : Event} (h : e.about j = false) : w.Leaves j (w.emit e) := by
  refine ⟨rfl, ?_⟩
  rw [emit, List.filter_append, List.filter_cons, h]
  exact List.append_nil _

theorem leaving_reply (r : Except TmError Answer) : Leaving j w (w.reply r) := (leaves_emit rfl).leaving

theorem leaving_finish (r : Except TmError Unit) (outp : Option RunOut) : Leaving j w (w.finish r outp) :=
  leaving_reply _

theorem leaving_next (now : UInt64) (i : Nat) (outp : Option RunOut) : Leaving j w (w.next now i outp) :=
  (leaves_push _).leaving

theorem leaving_countTimeout : Leaving j w w.countTimeout := by
  rw [countTimeout]
  split
  · exact Leaves.leaving ⟨rfl, rfl⟩
  · exact leaving_none

theorem leaving_after {α : Type} {P : Sys → Prop} {x : SysM α} {k : Except TmError α → World → Option World}
    (hx : Op.KeepsFrom P (Sys.Leaves j) x) (hP : P w.toSys)
    (hk : ∀ r s, x.run w.toSys = some (r, s) → Leaving j { w with toSys := s } (k r { w with toSys := s })) :
    Leaving j w (w.after x k) := by
  intro v hv
  obtain ⟨r, s, hRun, hv⟩ := after_some hv
  have hFirst : w.Leaves j { w with toSys := s } := ⟨hx _ _ _ hP hRun, rfl⟩
  exact IsTrans.trans _ _ _ hFirst (hk r s hRun v hv)

theorem leaving_answerIndex {P : Sys → Prop} {x : SysM Nat} (hx : Op.KeepsFrom P (Sys.Leaves j) x)
    (hP : P w.toSys) : Leaving j w (w.answerIndex x) := leaving_after hx hP fun _ _ _ => leaving_reply _

theorem leaving_answerUnit {P : Sys → Prop} {x : SysM Unit} (hx : Op.KeepsFrom P (Sys.Leaves j) x)
    (hP : P w.toSys) : Leaving j w (w.answerUnit x) := leaving_after hx hP fun _ _ _ => leaving_reply _

/-! ## Timer L told to a dialog -/

theorem leaving_dialogGiveUp {d : Nat} {handler : Bool} (hTakes : ¬ w.tm.Takes j)
    (hHushed : (w.tm.tx j).Hushed d) : Leaving j w (w.dialogGiveUp d handler countTimeout) := by
  refine leaving_after (dialogEnd_leaves d none).attempt ⟨hTakes, hHushed⟩ fun r s _ => ?_
  cases handler with
  | true =>
    have hTold : World.Leaves j { w with toSys := s } (emit (.dialogHandler d) { w with toSys := s }) :=
      leaves_emit rfl
    exact hTold.andThen (leaves_push _).leaving
  | false => exact leaving_countTimeout

theorem leaving_dialogTimeout {d : Nat} (hHushed : ∀ k, (w.tm.tx k).Hushed d)
    (hNot : ∀ dp, w.dialogs d = some dp → dp.ack_pending = true → dp.invite_callbacks.no_ack = false →
      ¬ w.tm.Takes j) : Leaving j w (w.dialogTimeout d) := by
  rw [dialogTimeout]
  split
  · exact leaving_none
  rename_i dp hThere
  intro v hv
  obtain ⟨r, s, hRun, hv⟩ := after_some hv
  obtain ⟨hTm, hGives⟩ := dialogUasTimeout_hushed hHushed hRun
  have hSame : Sys.tm s = w.tm := hTm
  have hFirst : w.Leaves j { w with toSys := s } := ⟨congrArg (fun tm : Tm => (tm.tx j).bare) hSame, rfl⟩
  refine hFirst.andThen (x := some v) ?_ v rfl
  rw [← hv]
  split
  · exact Leaves.leaving (Std.Refl.refl _)
  · exact Leaves.leaving (Std.Refl.refl _)
  · have hTold : World.Leaves j { w with toSys := s } (emit (.dialogNoAck d) { w with toSys := s }) :=
      leaves_emit rfl
    exact hTold.andThen (leaves_push _).leaving
  · obtain ⟨dp', hIs, hPending, hAsks⟩ := hGives rfl
    obtain rfl := Option.some.inj (hThere.symm.trans hIs)
    refine leaving_dialogGiveUp (w := { w with toSys := s }) ?_ ?_
    · rw [hSame]
      exact hNot dp hThere hPending hAsks
    · rw [hSame]
      exact hHushed j

/-! ## Turns -/

theorem leaves_timedOut (index : Nat) (rest : TimeoutRest) :
    Op.KeepsFrom (fun tm => j = index → ¬ Frame.Releases tm (.uacTimeout index rest 0)) (Tm.Leaves j)
      (uacTimedOut index rest) := by
  intro tm r tm' hNot hRun
  by_cases hj : j = index
  · obtain ⟨hReleases, -⟩ | ⟨-, rfl⟩ := uacTimedOut_released 0 hRun
    · exact absurd hReleases (hNot hj)
    · exact Std.Refl.refl _
  · exact leaves_uacTimedOut hj rest _ _ _ hRun

theorem leaving_uacTimeoutDone {now : UInt64} {i index : Nat} {rest : TimeoutRest} {outp : Option RunOut}
    (hNot : j = index → ¬ Frame.Releases w.tm (.uacTimeout index rest 0)) :
    Leaving j w (w.uacTimeoutDone now i index rest outp) := by
  refine leaving_after (onTm_leaves (leaves_timedOut index rest)) hNot fun r s _ => ?_
  cases r with
  | error e => exact leaving_finish _ _
  | ok _ => exact leaving_next _ _ _

theorem leaving_uacVisit {now : UInt64} {i : Nat} {outp : Option RunOut} {rval : Int}
    (hRole : (w.tm.tx i).role = .UAC) (hNot : ¬ w.tm.ClientReaches now i j) :
    Leaving j w (w.uacVisit now i outp rval) := by
  intro v hv
  obtain ⟨r, tm, hRun, hv⟩ := after_onTm hv
  obtain ⟨hLeaves, hSelf⟩ := uacRun_leaves hRole hNot hRun
  have hFirst : w.Leaves j { w with tm } := ⟨hLeaves, rfl⟩
  refine hFirst.andThen (x := some v) ?_ v rfl
  rw [← hv]
  cases r with
  | error e => exact leaving_finish _ _
  | ok turn =>
    cases turn with
    | «over» => exact leaving_next _ _ _
    | idle => exact leaving_next _ _ _
    | timeout rest told timeout_id =>
      have hj : j ≠ i := fun h => by rcases hSelf h with hIs | hIs <;> cases hIs
      dsimp only
      split
      · have hTold : World.Leaves j { w with tm } (emit
          (.timeout i (tm.tx i).born timeout_id) { w with tm }) :=
          leaves_emit (by simp [Event.about, Ne.symm hj])
        exact hTold.andThen (Leaves.andThen (leaves_push _) (leaves_push _).leaving)
      · exact leaving_uacTimeoutDone fun h => absurd h hj
    | send =>
      have hj : j ≠ i := fun h => by rcases hSelf h with hIs | hIs <;> cases hIs
      have hSent : World.Leaves j { w with tm } (({ w with tm } : World).send i rval) :=
        leaves_emit (by simp [Event.about, Ne.symm hj])
      refine hSent.andThen ?_
      dsimp only
      split
      · exact leaving_finish _ _
      · intro v' hv'
        obtain ⟨r₂, tm₂, hAfter, hv'⟩ := after_onTm hv'
        obtain ⟨⟨bye, rfl⟩, hOthers⟩ := uacSent_others hAfter
        obtain rfl := Option.some.inj hv'
        refine ⟨congrArg Txi.bare (hOthers j hj fun hChild => hNot ?_), rfl⟩
        cases uacRun_turns hRun with
        | send tp hLive hEarly hSending hPending hGoesOn =>
          simp only [send, emit, Tm.set_same] at hChild
          exact .bye hLive hSending (hGoesOn.child.symm.trans hChild)

/-- Of what a turn that sends tells, nothing is for another slot. -/
theorem TurnEnds.leaves {now : UInt64} {i : Nat} {stack : List Frame} {rval : Int}
    (h : w.TurnEnds now i stack rval v) (hj : j ≠ i) (hSlot : v.tm.tx j = w.tm.tx j) : w.Leaves j v := by
  have hSend : ∀ born raw target r, (Event.send i born raw target r).about j = false :=
    fun _ _ _ _ => beq_false_of_ne (Ne.symm hj)
  refine ⟨congrArg Txi.bare hSlot, ?_⟩
  cases h with
  | sent outp born raw target hSent hStack hLog =>
    rw [hLog, List.filter_append, List.filter_cons, hSend]
    exact List.append_nil _
  | failed born raw target hFailed hStack hLog =>
    rw [hLog, List.filter_append, List.filter_cons, hSend]
    exact List.append_nil _
  | notBuilt e hBuilding hStack hLog =>
    rw [hLog, List.filter_append]
    exact List.append_nil _

/-- Timer L of slot `i`, once that is over. -/
theorem timerL_leaves {now : UInt64} {i d : Nat} (outp : Option RunOut) (hHeld : w.toSys.Held)
    (hRole : (w.tm.tx i).role = .UAS) (hDue : (w.tm.tx i).timerDue now = true)
    (hType : (w.tm.tx i).timer.type = .L) (hOwner : (w.tm.tx i).uas_owner = some d)
    (hNot : ¬ w.toSys.ByeTakes now i j) :
    Leaving j { w with tm := w.tm.set i { w.tm.tx i with toCtl := (w.tm.tx i).uasMarkTerminated } }
      (dialogTimeout d (push (.run now (i + 1) outp)
        { w with tm := w.tm.set i { w.tm.tx i with toCtl := (w.tm.tx i).uasMarkTerminated } })) := by
  refine Leaves.andThen (leaves_push (.run now (i + 1) outp))
    (leaving_dialogTimeout (fun k => ?_) fun dp hThere hPending hAsks hTakes => ?_)
  · by_cases hk : k = i
    · subst hk
      intro _ _
      simp only [push, Tm.set_same]
      rfl
    · simp only [push, Tm.set_other _ _ hk]
      refine Ctl.hushed_of_not_owned fun hOwned => hk ?_
      obtain ⟨dp, hThere⟩ := Option.isSome_iff_exists.mp (hHeld.there i d hOwner)
      have hNames := (hHeld.owned i d hRole hOwner).2 dp hThere
      exact Option.some.inj (((hHeld.owned k d hOwned.1 hOwned.2).2 dp hThere).symm.trans hNames)
  · exact hNot ⟨hDue, hType, ⟨d, dp, hOwner, hThere, hPending, hAsks⟩, hTakes⟩

theorem leaving_uasVisit {now : UInt64} {i : Nat} {outp : Option RunOut} {rval : Int} (hHeld : w.toSys.Held)
    (hIn : i < w.tm.max_transactions) (hActive : (w.tm.tx i).active = true)
    (hRole : (w.tm.tx i).role = .UAS) (hNot : ¬ w.toSys.ServerReaches now i j) :
    Leaving j w (w.uasVisit now i outp rval) := by
  intro v hv
  have hVisit := hv
  obtain ⟨r, tm, hRun, hv⟩ := after_onTm hv
  obtain ⟨hDue, rfl, rfl⟩ | ⟨-, -, rfl, rfl⟩ | ⟨hLive, rfl, rfl⟩ := uasRun_turns hRun
  · have hj : j ≠ i := fun h => hNot (.own h (Or.inl hDue))
    have hFirst : w.Leaves j { w with
        tm := w.tm.set i { w.tm.tx i with toCtl := (w.tm.tx i).uasMarkTerminated } } :=
      ⟨w.tm.leaves_set _ hj, rfl⟩
    refine hFirst.andThen (x := some v) ?_ v rfl
    rw [← hv]
    split
    · cases ‹Except.ok _ = _›
    · cases ‹Except.ok _ = _›
    · refine Leaves.andThen (leaves_push (.run now (i + 1) outp)) ?_
      dsimp only
      split
      · refine Leaves.andThen (leaves_emit ?_) (leaves_push _).leaving
        simp [Event.about, Ne.symm hj]
      · exact leaving_countTimeout
    · rename_i d hTurn
      obtain ⟨hType, -, hOwner⟩ := UasTurn.timeout.inj (Except.ok.inj hTurn)
      exact timerL_leaves _ hHeld hRole hDue hType hOwner fun h => hNot (.bye h)
    · exact leaving_next _ _ _
    · cases ‹Except.ok _ = _›
  · exact leaving_next now (i + 1) _ v hv
  · obtain ⟨hEarly, -, hSending, -⟩ := uasRun_send hRun
    have hj : j ≠ i := fun h => hNot (.own h (Or.inr ⟨hLive, hSending⟩))
    have hUac : ¬ (w.tm.tx i).role = .UAC := by rw [hRole]; decide
    have hSends : w.tm.Sends now i := ⟨hIn, hActive, hLive, hEarly, hSending, fun h => absurd h hUac,
      fun h => absurd h hUac⟩
    have hSame : uasVisit now i outp rval { w with stack := w.stack } = some v := hVisit
    obtain ⟨hEnds, hOthers⟩ := uasVisit_ends hHeld.owned hSends hRole hSame
    exact hEnds.leaves hj (hOthers j hj)

theorem leaving_visit {now : UInt64} {i : Nat} {outp : Option RunOut} {rval : Int} (hHeld : w.toSys.Held)
    (hNot : ¬ w.toSys.TurnReaches now i j) : Leaving j w (w.visit now i outp rval) := by
  rw [visit]
  split
  · exact leaving_finish _ _
  rename_i hIn
  split
  · exact leaving_next _ _ _
  rename_i hActive
  have hIn := Nat.not_le.mp hIn
  have hActive : (w.tm.tx i).active = true := by simpa using hActive
  cases hRole : (w.tm.tx i).role with
  | UAC => exact leaving_uacVisit hRole fun h => hNot ⟨hIn, hActive, Or.inl ⟨hRole, h⟩⟩
  | UAS => exact leaving_uasVisit hHeld hIn hActive hRole fun h => hNot ⟨hIn, hActive, Or.inr ⟨hRole, h⟩⟩

/-! ## Incoming messages -/

/-- A message from the network does something to slot `j`. -/
inductive Hears (w : World) (msg : Msg) (j : Nat) : Prop
  /-- A response to the request of the slot itself. -/
  | own (tid : Tid) (code : StatusCode) (hTid : msg.getTid w.tm.mem = some tid)
      (hLine : msg.sline = .res code)
      (hFound : w.tm.findUac tid = some j)
  /-- A response to an INVITE, for which an ACK, a CANCEL or a BYE may be made. -/
  | invite (tid : Tid) (code : StatusCode) (i : Nat) (hTid : msg.getTid w.tm.mem = some tid)
      (hLine : msg.sline = .res code) (hFound : w.tm.findUac tid = some i)
      (hInvite : (w.tm.tx i).isInvite = true)
      (h : (w.tm.tx i).child_index = some j ∨ ¬ (w.tm.tx j).Safe)
  /-- A request for the slot. -/
  | request (tid : Tid) (method : Method) (uri : Str) (hTid : msg.getTid w.tm.mem = some tid)
      (hLine : msg.sline = .req method uri) (hFound : w.tm.findUas msg method tid = some j)

theorem leaves_responseDone (index : Nat) (code : StatusCode) :
    Op.KeepsFrom (fun tm => j = index → ¬ Frame.Releases tm (.response index code 0)) (Tm.Leaves j)
      (uacResponseDone index code) := by
  intro tm r tm' hNot hRun
  by_cases hj : j = index
  · obtain ⟨hReleases, -⟩ | ⟨-, rfl⟩ := uacResponseDone_some 0 hRun
    · exact absurd hReleases (hNot hj)
    · exact Std.Refl.refl _
  · exact leaves_uacResponseDone hj code _ _ _ hRun

theorem leaving_responseDone {index : Nat} {code : StatusCode}
    (hNot : j = index → ¬ Frame.Releases w.tm (.response index code 0)) :
    Leaving j w (w.responseDone index code) :=
  leaving_after (onTm_leaves (leaves_responseDone index code)) hNot fun _ _ _ => leaving_reply _

theorem leaving_incomingResponse {now : UInt64} {msg : Msg} {code : StatusCode} {tid : Tid}
    (hTid : msg.getTid w.tm.mem = some tid) (hLine : msg.sline = .res code) (hNot : ¬ w.Hears msg j) :
    Leaving j w (w.incomingResponse now msg code tid) := by
  have hOther : ∀ i, w.tm.findUac tid = some i → j ≠ i := by
    rintro i hFound rfl
    exact hNot (.own tid code hTid hLine hFound)
  have hLeaves : Op.KeepsFrom (· = w.tm) (Tm.Leaves j) (handleIncomingResponse now msg code tid) := by
    refine .getBind fun tm hIs => .seq (P := (· = tm)) (fun i t => t = tm ∧ tm.findUac tid = some i)
      (Op.Keeps.orElse _ _).from (fun t i t' ht hRun => ?_) fun i => ?_
    · obtain ⟨hFound, rfl⟩ := Op.orElse_ok.mp hRun
      exact ⟨ht, hFound⟩
    · rintro t r t' ⟨rfl, hFound⟩ hRun
      subst hIs
      refine Op.KeepsFrom.seq (fun _ _ => True) (leaves_uacResponded (hOther i hFound) now msg code)
        (fun _ _ _ _ _ => trivial) (fun _ => Op.Keeps.from (.bind .get fun _ => .pure _)) _ _ _
        (fun hInvite => ?_) hRun
      by_contra hUnsafe
      refine hNot (.invite tid code i hTid hLine hFound hInvite ?_)
      by_contra hBoth
      obtain ⟨hChild, hSafe⟩ := not_or.mp hBoth
      exact hUnsafe ⟨not_not.mp hSafe, hChild⟩
  intro v hv
  obtain ⟨r, tm, hRun, hv⟩ := after_onTm hv
  have hFirst : w.Leaves j { w with tm } := ⟨hLeaves _ _ _ rfl hRun, rfl⟩
  refine hFirst.andThen (x := some v) ?_ v rfl
  rw [← hv]
  cases r with
  | error e => exact leaving_reply _
  | ok out =>
    obtain ⟨i, told⟩ := out
    have hj : j ≠ i := hOther i (handleIncomingResponse_told hRun).1
    dsimp only
    split
    · refine Leaves.andThen (leaves_emit ?_) (leaves_push _).leaving
      simp [Event.about, Ne.symm hj]
    · exact leaving_responseDone fun h => absurd h hj

theorem leaving_incomingRequest {now : UInt64} {msg : Msg} {method : Method} {uri : Str} {tid : Tid}
    (hHeld : w.toSys.Held) (hTid : msg.getTid w.tm.mem = some tid) (hLine : msg.sline = .req method uri)
    (hNot : ¬ w.Hears msg j) : Leaving j w (w.incomingRequest now msg method tid) := by
  have hOther : w.tm.findUas msg method tid ≠ some j := fun hFound =>
    hNot (.request tid method uri hTid hLine hFound)
  intro v hv
  obtain ⟨r, tm, hRun, hv⟩ := after_onTm hv
  obtain ⟨hLeaves, hIndex⟩ := handleIncomingRequest_leaves hOther hRun
  have hFirst : w.Leaves j { w with tm } := ⟨hLeaves, rfl⟩
  refine hFirst.andThen (x := some v) ?_ v rfl
  rw [← hv]
  cases r with
  | error e => exact leaving_reply _
  | ok q =>
    cases q with
    | ack2xx i owner =>
      cases owner with
      | none => exact leaving_reply _
      | some d =>
        refine leaving_after (dialogUasAcked_leaves d) ?_ fun _ _ _ => leaving_reply _
        have hOwner : (w.tm.tx i).uas_owner = some d := handleIncomingRequest_ack2xx hRun
        have hj : i ≠ j := fun h => hIndex _ rfl (congrArg some h)
        have hWas : ¬ (w.tm.tx j).OwnedBy d := fun hOwned => hj (by
          obtain ⟨dp, hThere⟩ := Option.isSome_iff_exists.mp (hHeld.there i d hOwner)
          have hNames := (hHeld.owned i d (hHeld.role hOwner) hOwner).2 dp hThere
          exact Option.some.inj (hNames.symm.trans ((hHeld.owned j d hOwned.1 hOwned.2).2 dp hThere)))
        exact Ctl.hushed_of_not_owned
          (hLeaves.stays (P := fun tp => ¬ tp.OwnedBy d) (fun _ => Iff.rfl) hWas)
    | ack i => exact leaving_reply _
    | cancel i told =>
      have hj : i ≠ j := fun h => hIndex _ rfl (congrArg some h)
      dsimp only
      split
      · refine Leaves.andThen (leaves_emit ?_) (leaves_push _).leaving
        simp [Event.about, hj]
      · exact leaving_reply _
    | retransmit i => exact leaving_reply _
    | new =>
      have hTold : World.Leaves j { w with tm } (emit .incomingRequest { w with tm }) := leaves_emit rfl
      exact hTold.andThen (leaves_push _).leaving

theorem leaving_handleIncoming {now : UInt64} {msg : Option Msg} (hHeld : w.toSys.Held)
    (hNot : ∀ m, msg = some m → ¬ w.Hears m j) : Leaving j w (w.handleIncoming now msg) := by
  cases msg with
  | none => exact leaving_reply _
  | some msg =>
    rw [handleIncoming]
    split
    · exact leaving_reply _
    · rename_i tid code hTid hLine
      exact leaving_incomingResponse hTid hLine (hNot msg rfl)
    · rename_i tid method uri hTid hLine
      exact leaving_incomingRequest hHeld hTid hLine (hNot msg rfl)

/-! ## Steps -/

end World

/-- A call of the application does something to slot `j`. -/
def Call.Reaches (w : World) (j : Nat) : Call → Prop
  | .newUacTr _ | .newUasTr _ | .newInDialogTransaction _ | .uasCancelOk _ _ => w.tm.Takes j
  | .uasTrCancelled _ i _ => j = i ∨ w.tm.Takes j
  | .cancel i => j = i ∨ ¬ (w.tm.tx j).Safe
  | .nextTransaction i _ _ | .sendUasResponse i _ | .setTimerPolicy i _ | .dialogUasCtor i _ => j = i
  | .dropTransaction i => j = i ∨ w.tm.ChildOf i j
  | .handleIncoming _ msg => ∃ m, msg = some m ∧ w.Hears m j
  | .run _ _ | .dialogUacCtor _ _ | .dialogSetNoAckHandler _ _ => False
  | .dialogDtor d => (w.tm.tx j).OwnedBy d
  | .dialogAcceptUasBye d _ _ => ¬ (w.tm.tx j).Hushed d
  | .dialogHandleUasTransaction d i _ => j = i ∨ ¬ (w.tm.tx j).Hushed d
  | .dialogEnd d _ => w.tm.Takes j ∨ ¬ (w.tm.tx j).Hushed d

namespace World

variable {w v : World}

/-- A step does something to slot `j`, but for the message that is given back after a callback. -/
inductive Reaches (w : World) (j : Nat) : Label → Prop
  | call (c : Call) (h : c.Reaches w j) : Reaches w j (.call c)
  | turn (now : UInt64) (i : Nat) (outp : Option RunOut) (stack : List Frame) (rval : Int)
      (hStack : w.stack = .run now i outp :: stack) (h : w.toSys.TurnReaches now i j) :
      Reaches w j (.turn rval)
  /-- A dialog that has asked gives its call up. -/
  | gaveUp (d : Nat) (handler : Bool) (stack : List Frame)
      (hStack : w.stack = .dialogNoAck d handler :: stack)
      (h : w.tm.Takes j ∨ ¬ (w.tm.tx j).Hushed d) : Reaches w j (.ret 0)

/-- A callback returns, and the message of slot `j`, whatever is there now, is given back. -/
def GivesBack (w : World) (j : Nat) (l : Label) : Prop :=
  ∃ f stack rval, w.stack = f :: stack ∧ l = .ret rval ∧ f.clientSlot = some j ∧ f.Releases w.tm

theorem leaving_perform {c : Call} (hHeld : w.toSys.Held) (hNot : ¬ c.Reaches w j) :
    Leaving j w (w.perform c) := by
  have hAll {α : Type} {x : TmM α} (hx : Op.Keeps (Tm.Leaves j) x) :
      Op.KeepsFrom (fun _ => True) (Sys.Leaves j) (onTm x) :=
    onTm_leaves (P := fun _ => True) hx.from
  cases c with
  | newUacTr tpp => exact leaving_answerIndex (onTm_leaves (makes_newUacTr tpp).from) hNot
  | newUasTr tpp => exact leaving_answerIndex (onTm_leaves (makes_newUasTr tpp).from) hNot
  | newInDialogTransaction tpp =>
    exact leaving_answerIndex (onTm_leaves (makes_newInDialogTransaction tpp).from) hNot
  | nextTransaction i payload ehp =>
    exact leaving_answerUnit (hAll (leaves_nextTransaction hNot payload ehp)) trivial
  | cancel i =>
    obtain ⟨hj, hSafe⟩ := not_or.mp hNot
    exact leaving_answerUnit (onTm_leaves (leaves_cancel hj)) (not_not.mp hSafe)
  | sendUasResponse i rpp => exact leaving_answerUnit (hAll (leaves_sendUasResponse hNot rpp)) trivial
  | uasCancelOk cancelp i => exact leaving_answerUnit (onTm_leaves (leaves_uasCancelOk cancelp i)) hNot
  | uasTrCancelled cancelp i rpp =>
    obtain ⟨hj, hTakes⟩ := not_or.mp hNot
    exact leaving_answerUnit (onTm_leaves (leaves_uasTrCancelled hj cancelp rpp)) hTakes
  | dropTransaction i => exact leaving_answerUnit (onTm_leaves (leaves_dropTransaction i)) (not_or.mp hNot)
  | setTimerPolicy i policy => exact leaving_answerUnit (hAll (leaves_setTimerPolicy hNot policy)) trivial
  | run now report => exact (leaves_push _).leaving
  | handleIncoming now msg => exact leaving_handleIncoming hHeld fun m hm h => hNot ⟨m, hm, h⟩
  | dialogUacCtor i msg =>
    exact leaving_answerIndex (P := fun _ => True) (dialogUacCtor_leaves i msg).from trivial
  | dialogUasCtor i rpp =>
    exact leaving_answerIndex (P := fun _ => True) (dialogUasCtor_leaves hNot rpp).from trivial
  | dialogSetNoAckHandler d handler =>
    exact leaving_answerUnit (P := fun _ => True) (modDialog_leaves d _).from trivial
  | dialogDtor d => exact leaving_answerUnit (dialogDtor_leaves d) hNot
  | dialogAcceptUasBye d i msg =>
    exact leaving_answerUnit (dialogAcceptUasBye_leaves d i msg) (not_not.mp hNot)
  | dialogHandleUasTransaction d i msg =>
    obtain ⟨hj, hHushed⟩ := not_or.mp hNot
    refine leaving_answerUnit (P := fun s => (s.tm.tx j).Hushed d) ?_ (not_not.mp hHushed)
    exact .bind (dialogAcceptUasBye_leaves d i msg) fun _ =>
      (onTm_leaves (P := fun _ => True) (leaves_sendUasResponse hj _).from).mono fun _ _ => trivial
  | dialogEnd d cbp =>
    obtain ⟨hTakes, hHushed⟩ := not_or.mp hNot
    exact leaving_answerIndex (dialogEnd_leaves d cbp) ⟨hTakes, not_not.mp hHushed⟩

theorem leaving_resume {rval : Int} {f : Frame} {stack : List Frame} (hStack : w.stack = f :: stack)
    (hNot : ¬ w.Reaches j (.ret rval)) (hKeeps : ¬ w.GivesBack j (.ret rval)) :
    Leaving j w (resume { w with stack } rval f) := by
  have hFirst : w.Leaves j { w with stack } := leaves_stack stack
  refine hFirst.andThen ?_
  cases f with
  | run now i outp => exact leaving_none
  | uacTimeout index rest born =>
    rw [resume]
    split
    · refine Leaves.andThen (leaves_stack _) (leaving_uacTimeoutDone fun hj hReleases => hKeeps ?_)
      exact ⟨_, stack, rval, hStack, rfl, congrArg some hj.symm, hReleases⟩
    · exact leaving_none
  | noAck => exact leaving_countTimeout
  | dialogNoAck d handler =>
    rw [resume]
    split
    · exact leaving_countTimeout
    · rename_i hZero
      obtain rfl := not_not.mp hZero
      have hBoth := fun h => hNot (.gaveUp d handler stack hStack h)
      obtain ⟨hTakes, hHushed⟩ := not_or.mp hBoth
      exact leaving_dialogGiveUp hTakes (not_not.mp hHushed)
  | dialogHandler => exact leaving_countTimeout
  | response index code born =>
    refine leaving_responseDone fun hj hReleases => hKeeps ?_
    exact ⟨_, stack, rval, hStack, rfl, congrArg some hj.symm, hReleases⟩
  | uasCancel index => exact leaving_reply _
  | incomingRequest tid => exact leaving_reply _

/-- A step that does not reach a slot leaves it alone. -/
theorem step_leaves {l : Label} (hHeld : w.toSys.Held) (hNot : ¬ w.Reaches j l) (hKeeps : ¬ w.GivesBack j l)
    (hStep : w.step l = some v) : w.Leaves j v := by
  cases l with
  | call c =>
    simp only [step] at hStep
    split at hStep
    · exact leaving_perform hHeld (fun h => hNot (.call c h)) v hStep
    · cases hStep
  | turn rval =>
    simp only [step] at hStep
    split at hStep
    · rename_i now i outp stack hStack
      have hFirst : w.Leaves j { w with stack } := leaves_stack stack
      exact hFirst.andThen (leaving_visit hHeld fun h => hNot (.turn now i outp stack rval hStack h)) v hStep
    · cases hStep
  | ret rval =>
    simp only [step] at hStep
    split at hStep
    · cases hStep
    · rename_i f stack hStack
      exact leaving_resume hStack hNot hKeeps v hStep

end World

end Microsippy
