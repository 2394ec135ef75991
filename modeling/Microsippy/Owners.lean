import Microsippy.DialogUris
import Microsippy.Turns

/-! # Owners

A dialog and the INVITE it answered refer to each other by a pointer and an index, and each may go
before the other does.
-/

namespace Microsippy

set_option autoImplicit false

/-! ## Slots without an owner -/

/-- Neither a client transaction nor a free slot has an owner. -/
def Tm.Unowned (tm : Tm) : Prop := ∀ k, (tm.tx k).role = .UAC → (tm.tx k).uas_owner = none

theorem Act.unowned {allow : Allow} {tm tm' : Tm} (h : Act allow tm tm') (hOk : tm.UasOk)
    (hOld : tm.Unowned) : tm'.Unowned := by
  have hSet {j : Nat} {tp : Txi} (hNew : tp.role = .UAC → tp.uas_owner = none) : (tm.set j tp).Unowned := by
    intro k hRole
    by_cases hk : k = j
    · subst hk
      rw [Tm.set_same] at hRole ⊢
      exact hNew hRole
    · rw [Tm.set_other _ _ hk] at hRole ⊢
      exact hOld k hRole
  cases h with
  | work j tp hRole h => exact hSet fun _ => (h.life.client hRole).trans (hOld j hRole)
  | fill j tp hRole hFree h => exact hSet fun _ => (h.life.client hRole).trans (hOld j hRole)
  | stay j tp h =>
    refine hSet fun hRole => ?_
    have hWas := h.ctl.life.role.symm.trans hRole
    exact (h.ctl.life.client hWas).trans (hOld j hWas)
  | clear j hFree => exact hSet fun _ => rfl
  | enter j tp hFree hActive hBorn hRole hKept hSlot hIn hOwner =>
    refine hSet fun _ => hOwner.trans (hOld j ?_)
    cases hWas : (tm.tx j).role with
    | UAC => rfl
    | UAS => exact Bool.noConfusion (hFree.symm.trans (hOk j hWas).active)
  | drop j hj hActive =>
    intro k hRole
    rw [Tm.drop_tx] at hRole ⊢
    split
    · rfl
    · rename_i hStays
      rw [if_neg hStays] at hRole
      rw [Tm.dropLinked] at hRole ⊢
      split at hRole
      · rename_i hLinked
        rw [if_pos hLinked]
        exact hOld k hRole
      · rename_i hOther
        rw [if_neg hOther]
        exact hOld k hRole
  | uncount j hActive => exact hSet fun _ => rfl
  | leak j hActive => exact hSet fun _ => rfl

theorem Moves.unowned {allow : Allow} {tm tm' : Tm} (h : Moves allow tm tm') (hOk : tm.UasOk)
    (hOld : tm.Unowned) : tm'.Unowned := by
  induction h with
  | refl => exact hOld
  | @tail t u hFirst hStep ih =>
    cases hStep with
    | inl hAct => exact hAct.unowned (Moves.uasOk hFirst hOk) ih
    | inr hEnters =>
      obtain ⟨j, tp, hBorn, hUas, hNew, hOwner, hSlot⟩ := hEnters
      intro k hRole
      by_cases hk : k = j
      · subst hk
        rw [Tm.enter, Tm.set_same, hUas] at hRole
        cases hRole
      · rw [Tm.enter, Tm.set_other _ _ hk] at hRole ⊢
        exact ih k hRole

/-! ## Dialogs that own -/

/-- An owner is a dialog that is there, and its slot one of the table. -/
structure Sys.Held (s : Sys) : Prop where
  owned : s.Owned
  unowned : s.tm.Unowned
  inTable : ∀ k d, (s.tm.tx k).uas_owner = some d → k < s.tm.max_transactions
  there : ∀ k d, (s.tm.tx k).uas_owner = some d → (s.dialogs d).isSome

namespace Sys

variable {s s' : Sys}

theorem Held.role (h : s.Held) {k d : Nat} (hOwner : (s.tm.tx k).uas_owner = some d) :
    (s.tm.tx k).role = .UAS := by
  cases hRole : (s.tm.tx k).role with
  | UAS => rfl
  | UAC =>
    rw [h.unowned k hRole] at hOwner
    cases hOwner

/-- The dialog that owns a slot names it. -/
theorem Held.names (h : s.Held) {k d : Nat} (hOwner : (s.tm.tx k).uas_owner = some d) :
    ∃ dp, s.dialogs d = some dp ∧ dp.invite_index = some k := by
  obtain ⟨dp, hThere⟩ := Option.isSome_iff_exists.mp (h.there k d hOwner)
  exact ⟨dp, hThere, (h.owned k d (h.role hOwner) hOwner).2 dp hThere⟩

theorem Moves.held_of {allow : Allow} (h : s.Moves allow s') (hOwns : ¬ allow.owns) (hOk : s.UasOk)
    (hHeld : s.Held) (hStays : ∀ k d, (s'.tm.tx k).uas_owner = some d → ¬ allow.gone d) : s'.Held := by
  have hUnowned := h.slots.unowned hOk hHeld.unowned
  have hBack {k d : Nat} (hOwner : (s'.tm.tx k).uas_owner = some d) : (s.tm.tx k).uas_owner = some d := by
    refine (h.slots.owner hOwns ?_ hOwner).2
    cases hRole : (s'.tm.tx k).role with
    | UAS => rfl
    | UAC =>
      rw [hUnowned k hRole] at hOwner
      cases hOwner
  constructor
  · exact h.owned hOwns hHeld.owned
  · exact hUnowned
  · intro k d hOwner
    exact Nat.lt_of_lt_of_eq (hHeld.inTable k d (hBack hOwner)) h.slots.max.symm
  · intro k d hOwner
    have hWas := hBack hOwner
    have hLt := (hHeld.owned k d (hHeld.role hWas) hWas).1
    exact (h.stays d hLt (hHeld.there k d hWas)).resolve_left (hStays k d hOwner)

theorem Held.adopt {index : Nat} {dp : Dialog} (h : s.Held) (hNames : dp.invite_index = some index)
    (hFound : (uasLookup s.tm index none).isSome) : (s.adopt index dp).Held := by
  obtain ⟨hIn, -, hRole, -⟩ := uasLookup_isSome.mp hFound
  have hEither {k d : Nat} (hOwner : ((s.adopt index dp).tm.tx k).uas_owner = some d) :
      k = index ∧ d = s.next_dialog ∨ (s.tm.tx k).uas_owner = some d := by
    by_cases hk : k = index
    · subst hk
      simp only [Sys.adopt, Tm.set_same] at hOwner
      exact Or.inl ⟨rfl, (Option.some.inj hOwner).symm⟩
    · simp only [Sys.adopt, Tm.set_other _ _ hk] at hOwner
      exact Or.inr hOwner
  constructor
  · exact h.owned.adopt hNames
  · intro k hUac
    by_cases hk : k = index
    · subst hk
      simp only [Sys.adopt, Tm.set_same] at hUac
      rw [hRole] at hUac
      cases hUac
    · simp only [Sys.adopt, Tm.set_other _ _ hk] at hUac ⊢
      exact h.unowned k hUac
  · intro k d hOwner
    cases hEither hOwner with
    | inl hNew => exact hNew.1 ▸ hIn
    | inr hOld => exact h.inTable k d hOld
  · intro k d hOwner
    simp only [Sys.adopt]
    split
    · rfl
    · rename_i hOther
      cases hEither hOwner with
      | inl hNew => exact absurd hNew.2 hOther
      | inr hOld => exact h.there k d hOld

theorem dialogHush_ok {d : Nat} {invite_index : Option Nat} {r : Except TmError Unit}
    (hRun : (dialogHush d invite_index).run s = some (r, s')) : r = .ok () := by
  cases invite_index with
  | none =>
    obtain ⟨rfl, -⟩ := Prod.mk.inj (Option.some.inj hRun)
    rfl
  | some index =>
    rw [dialogHush, Op.run_bind] at hRun
    cases hSend : (Op.attempt (ε := TmError) (onTm (uasSendAt index d TIME_NONE))).run s with
    | none =>
      rw [hSend] at hRun
      cases hRun
    | some out =>
      obtain ⟨q, t⟩ := out
      obtain ⟨r₁, -, rfl⟩ := Op.attempt_some.mp hSend
      rw [hSend] at hRun
      obtain ⟨rfl, -⟩ := Prod.mk.inj (Option.some.inj hRun)
      rfl

theorem dialogUasAcked_ok {d : Nat} {r : Except TmError Unit}
    (hRun : (dialogUasAcked d).run s = some (r, s')) : r = .ok () := by
  cases hd : s.dialogs d with
  | none =>
    simp only [dialogUasAcked, getDialog, Op.run_bind, Op.run_get, Op.andThen_ok, hd] at hRun
    cases hRun
  | some dp =>
    simp only [dialogUasAcked, modDialog, getDialog, Op.run_bind, Op.run_get, Op.andThen_ok, hd,
      Op.run_demand_some, Op.run_modify] at hRun
    exact dialogHush_ok hRun

theorem stays_dialogUasCtor_held (invite_index : Nat) (rpp : UasResponseParams) :
    Op.Keeps (Sys.Stays Sys.Held) (dialogUasCtor invite_index rpp) :=
  stays_dialogUasCtor invite_index rpp
    (fun _ _ hOk hMoves hHeld => hMoves.held_of id hOk hHeld fun _ _ _ hGone => hGone)
    fun _ _ hNames hFound hHeld => hHeld.adopt hNames hFound

/-- A dialog that is destroyed owns nothing any more. -/
theorem Held.disowned {d : Nat} {r : Except TmError Unit} (hOk : s.UasOk) (h : s.Held)
    (hRun : (dialogDtor d).run s = some (r, s')) (k : Nat) : (s'.tm.tx k).uas_owner ≠ some d := by
  intro hOwner
  simp only [dialogDtor, getDialog, Op.run_bind, Op.run_get, Op.andThen_ok] at hRun
  cases hd : s.dialogs d with
  | none =>
    rw [hd] at hRun
    cases hRun
  | some dp =>
    rw [hd, Op.run_demand_some, Op.andThen_ok] at hRun
    cases hIndex : dp.invite_index with
    | none =>
      rw [hIndex] at hRun
      obtain ⟨-, rfl⟩ := Prod.mk.inj (Option.some.inj hRun)
      obtain ⟨dp', hIs, hNames⟩ := h.names hOwner
      obtain rfl := Option.some.inj (hd.symm.trans hIs)
      rw [hIndex] at hNames
      cases hNames
    | some index =>
      rw [hIndex] at hRun
      simp only [Op.run_bind] at hRun
      cases hAcked : (dialogUasAcked d).run s with
      | none =>
        rw [hAcked] at hRun
        cases hRun
      | some out =>
        obtain ⟨r₁, u⟩ := out
        obtain rfl := dialogUasAcked_ok hAcked
        rw [hAcked, Op.andThen_ok] at hRun
        cases hClear : (Op.attempt (ε := TmError) (onTm (uasClearOwner index d))).run u with
        | none =>
          rw [hClear] at hRun
          cases hRun
        | some out =>
          obtain ⟨q, v⟩ := out
          obtain ⟨r₂, hOn, rfl⟩ := Op.attempt_some.mp hClear
          obtain ⟨tm, hPart, rfl⟩ := Op.zoom_some.mp hOn
          rw [hClear] at hRun
          obtain ⟨-, rfl⟩ := Prod.mk.inj (Option.some.inj hRun)
          have hMoves : s.Moves {} u := moves_dialogUasAcked d _ _ _ hAcked
          have hHeld : u.Held := hMoves.held_of id hOk h fun _ _ _ hGone => hGone
          have hStill (hOwns : (u.tm.tx k).uas_owner = some d) : k = index := by
            have hWas := (hMoves.slots.owner id (hHeld.role hOwns) hOwns).2
            obtain ⟨dp', hIs, hNames⟩ := h.names hWas
            obtain rfl := Option.some.inj (hd.symm.trans hIs)
            exact Option.some.inj (hNames.symm.trans hIndex)
          obtain ⟨-, -, rfl⟩ | ⟨hMissing, -, rfl⟩ := onUas_some hPart
          · by_cases hk : k = index
            · subst hk
              simp only [Sys.setDialog, Tm.set_same] at hOwner
              cases hOwner
            · simp only [Sys.setDialog, Tm.set_other _ _ hk] at hOwner
              exact hk (hStill hOwner)
          · obtain rfl := hStill hOwner
            have hRole := hHeld.role hOwner
            have hActive := (hMoves.slots.uasOk hOk k hRole).active
            have hFound : (uasLookup u.tm k (some d)).isSome = true :=
              uasLookup_isSome.mpr ⟨hHeld.inTable k d hOwner, hActive, hRole, Or.inr hOwner⟩
            rw [hFound] at hMissing
            cases hMissing

theorem Held.dtor {d : Nat} {r : Except TmError Unit} (hOk : s.UasOk) (h : s.Held)
    (hRun : (dialogDtor d).run s = some (r, s')) : s'.Held := by
  have hMoves : s.Moves { gone := fun e => e = d } s' := moves_dialogDtor d rfl _ _ _ hRun
  refine hMoves.held_of id hOk h fun k e hOwner hGone => ?_
  have hGone : e = d := hGone
  subst hGone
  exact h.disowned hOk hRun k hOwner

end Sys

namespace World

theorem step_held {w w' : World} {l : Label} (hOk : w.tm.UasOk) (hHeld : w.toSys.Held)
    (hStep : w.step l = some w') : w'.toSys.Held := by
  by_cases hOwns : (w.grants l).owns
  · obtain ⟨index, rpp, rfl⟩ := hOwns
    simp only [step] at hStep
    split at hStep
    · simp only [perform, answerIndex, World.after] at hStep
      cases hRun : (dialogUasCtor index rpp).run w.toSys with
      | none =>
        rw [hRun] at hStep
        cases hStep
      | some out =>
        obtain ⟨r, s⟩ := out
        rw [hRun] at hStep
        obtain rfl := Option.some.inj hStep
        exact (Sys.stays_dialogUasCtor_held index rpp _ _ _ hRun ⟨hOk, hHeld⟩).2
    · cases hStep
  · by_cases hGone : ∃ d, l = .call (.dialogDtor d)
    · obtain ⟨d, rfl⟩ := hGone
      simp only [step] at hStep
      split at hStep
      · simp only [perform, answerUnit, World.after] at hStep
        cases hRun : (dialogDtor d).run w.toSys with
        | none =>
          rw [hRun] at hStep
          cases hStep
        | some out =>
          obtain ⟨r, s⟩ := out
          rw [hRun] at hStep
          obtain rfl := Option.some.inj hStep
          exact hHeld.dtor hOk hRun
      · cases hStep
    · exact (step_went hOk hStep).moves.held_of hOwns hOk hHeld fun k d _ hIs => hGone ⟨d, hIs⟩

theorem ReachableBy.held {ok : World → Label → Prop} {w : World} (h : ReachableBy ok w) :
    w.toSys.Held := by
  obtain ⟨p, tm, hCtor, hRun⟩ := h
  have hBoth : w.tm.UasOk ∧ w.toSys.Held := by
    induction hRun with
    | refl =>
      have hFresh : ∀ k, (start tm).tm.tx k = freshSlot k := fun k => by
        rw [show (start tm).tm.tx = freshSlot from (Tm.ctor_fresh hCtor).1]
      refine ⟨start_uasOk hCtor, ?_, fun k _ => ?_, fun k d hOwner => ?_, fun k d hOwner => ?_⟩
      · intro k d hRole _
        rw [hFresh] at hRole
        cases hRole
      · rw [hFresh]
        rfl
      · rw [hFresh] at hOwner
        cases hOwner
      · rw [hFresh] at hOwner
        cases hOwner
    | snoc _ _ hStep ih => exact ⟨(step_moves ih.1 hStep).uasOk ih.1, step_held ih.1 ih.2 hStep⟩
  exact hBoth.2

/-! ## Calls of an owner -/

/-- The manager calls an operation of the owner of a slot. -/
inductive CallsOwner (w : World) (l : Label) (k d : Nat) : Prop
  /-- The ACK of a 2xx. -/
  | acked (now : UInt64) (msg : Msg) (method : Method) (ruri : Str) (tid : Tid) (tm : Tm)
      (hl : l = .call (.handleIncoming now (some msg))) (hLine : msg.sline = .req method ruri)
      (hTid : msg.getTid w.tm.mem = some tid)
      (hRun : (handleIncomingRequest now msg method tid).run w.tm = some (.ok (.ack2xx k (some d)), tm))
  /-- Timer L. -/
  | timeout (now : UInt64) (rval : Int) (outp : Option RunOut) (stack : List Frame) (no_ack : Bool)
      (tm : Tm) (hStack : w.stack = .run now k outp :: stack) (hl : l = .turn rval)
      (hRun : (uasRun k now).run w.tm = some (.ok (.timeout .L no_ack (some d)), tm))
  /-- A 2xx sent. -/
  | sent (now : UInt64) (outp : Option RunOut) (stack : List Frame) (tm tm' : Tm)
      (hStack : w.stack = .run now k outp :: stack) (hl : l = .turn 0)
      (hRun : (uasRun k now).run w.tm = some (.ok .send, tm))
      (hSent : (uasSent k now).run tm = some (.ok (some d), tm'))

/-- An operation of a dialog is invoked on behalf of its INVITE: by the manager, or by the rest of
`usipy_sip_dialog_uas_timeout` once its no_ack callback has answered that the dialog is to end. Where
the dialog is gone by then, nothing is known of what follows, and there is no step. -/
inductive InvokesOwner (w : World) (l : Label) (d : Nat) : Prop
  | called (k : Nat) (h : w.CallsOwner l k d)
  | ends (handler : Bool) (stack : List Frame) (hStack : w.stack = .dialogNoAck d handler :: stack)
      (hl : l = .ret 0)

/-- A no_ack callback that has destroyed its dialog answers that the dialog is to end. -/
def EndsDestroyed (w : World) (l : Label) : Prop :=
  l = .ret 0 ∧ ∃ d handler stack, w.stack = .dialogNoAck d handler :: stack ∧ w.dialogs d = none

theorem handleIncomingRequest_ack2xx {now : UInt64} {msg : Msg} {method : Method} {tid : Tid}
    {tm tm' : Tm} {k : Nat} {owner : Option Nat}
    (hRun : (handleIncomingRequest now msg method tid).run tm = some (.ok (.ack2xx k owner), tm')) :
    (tm.tx k).uas_owner = owner := by
  obtain ⟨_, _, hGet, hRun⟩ := Op.bind_ok.mp hRun
  obtain ⟨rfl, rfl⟩ := Op.get_ok.mp hGet
  dsimp only at hRun
  split at hRun
  · split at hRun
    · obtain ⟨_, _, -, hRun⟩ := Op.bind_ok.mp hRun
      obtain ⟨hIs, -⟩ := Op.pure_ok.mp hRun
      cases hIs
      rfl
    · obtain ⟨_, _, -, hRun⟩ := Op.bind_ok.mp hRun
      obtain ⟨hIs, -⟩ := Op.pure_ok.mp hRun
      cases hIs
  · obtain ⟨hIs, -⟩ := Op.pure_ok.mp hRun
    cases hIs
  · obtain ⟨_, _, -, hRun⟩ := Op.bind_ok.mp hRun
    obtain ⟨hIs, -⟩ := Op.pure_ok.mp hRun
    cases hIs
  · obtain ⟨_, _, -, hRun⟩ := Op.bind_ok.mp hRun
    obtain ⟨hIs, -⟩ := Op.pure_ok.mp hRun
    cases hIs

theorem CallsOwner.owner {w : World} {l : Label} {k d : Nat} (h : w.CallsOwner l k d) :
    (w.tm.tx k).uas_owner = some d := by
  cases h with
  | acked now msg method ruri tid tm hl hLine hTid hRun => exact handleIncomingRequest_ack2xx hRun
  | timeout now rval outp stack no_ack tm hStack hl hRun =>
    obtain ⟨-, hIs, -⟩ | ⟨-, -, hIs, -⟩ | ⟨-, hIs, -⟩ := uasRun_turns hRun
    · exact (UasTurn.timeout.inj (Except.ok.inj hIs)).2.2.symm
    · cases hIs
    · cases hIs
  | sent now outp stack tm tm' hStack hl hRun hSent =>
    obtain ⟨-, -, -, rfl⟩ := uasRun_send hRun
    obtain ⟨c, -, -, hIs⟩ := uasSent_some hSent
    have hOwner := Except.ok.inj hIs
    rw [Tm.set_same] at hOwner
    split at hOwner
    · exact (Ctl.startTimerL_owner now (w.tm.tx k).toCtl).symm.trans hOwner.symm
    · cases hOwner

end World

/-! ## Operations of an owner -/

/-- Nothing is done to a slot that the dialog does not own. -/
def Sys.SparesOthers (d : Nat) (s s' : Sys) : Prop :=
  ∀ k, (s.tm.tx k).uas_owner ≠ some d → s'.tm.tx k = s.tm.tx k

instance (d : Nat) : IsPreorder Sys (Sys.SparesOthers d) where
  refl _ _ _ := rfl
  trans s t u h h' := fun k hOther => by
    have hSame := h k hOther
    exact (h' k (hSame ▸ hOther)).trans hSame

namespace Sys

variable {d : Nat}

theorem spares_onUas (index : Nat) (f : Ctl → Ctl) :
    Op.Keeps (SparesOthers d) (onTm (onUas index (some d) f)) := by
  intro s r s' hRun k hOther
  obtain ⟨tm, hPart, rfl⟩ := Op.zoom_some.mp hRun
  obtain ⟨hFound, -, rfl⟩ | ⟨-, -, rfl⟩ := onUas_some hPart
  · have hOwner := (uasLookup_isSome.mp hFound).2.2.2.resolve_left (by simp)
    have hk : k ≠ index := by
      rintro rfl
      exact hOther hOwner
    exact Tm.set_other _ _ hk
  · rfl

theorem spares_getDialog : Op.Keeps (SparesOthers d) (getDialog d) := .bind .get fun _ => .demand _

theorem spares_modDialog (f : Dialog → Dialog) : Op.Keeps (SparesOthers d) (modDialog d f) :=
  .bind spares_getDialog fun _ => .modify fun _ _ _ => rfl

theorem spares_dialogUasSent (now : UInt64) : Op.Keeps (SparesOthers d) (dialogUasSent d now) := by
  refine .bind spares_getDialog fun _ => .bind (.demand _) fun index => .ite (fun _ => .pure _) fun _ =>
    .bind (.attempt (spares_onUas _ _)) fun r => ?_
  cases r with
  | error e => exact .pure _
  | ok u => exact spares_modDialog _

theorem spares_dialogUasAcked : Op.Keeps (SparesOthers d) (dialogUasAcked d) := by
  refine .bind spares_getDialog fun dp => .bind (spares_modDialog _) fun _ => ?_
  cases dp.invite_index with
  | none => exact .pure _
  | some index => exact .bind (.attempt (spares_onUas _ _)) fun _ => .pure _

theorem spares_dialogUasTimeout : Op.Keeps (SparesOthers d) (dialogUasTimeout d) :=
  .bind .get fun _ => .bind spares_getDialog fun _ => .ite (fun _ => .pure _) fun _ =>
    .bind spares_dialogUasAcked fun _ => .pure _

theorem spares_dialogDtor : Op.Keeps (SparesOthers d) (dialogDtor d) := by
  refine .bind spares_getDialog fun dp => ?_
  have hGone : Op.Keeps (SparesOthers d) (Op.modify (ε := TmError) (Sys.setDialog d none)) :=
    .modify fun _ _ _ => rfl
  cases dp.invite_index with
  | none => exact hGone
  | some index =>
    exact .bind spares_dialogUasAcked fun _ => .bind (.attempt (spares_onUas _ _)) fun _ => hGone

end Sys

/-- What a dialog finds at an index it does not own. -/
theorem uasLookup_other {tm : Tm} {k d : Nat} (hOther : (tm.tx k).uas_owner ≠ some d) :
    uasLookup tm k (some d) = none := by
  rw [uasLookup, if_neg]
  rintro ⟨-, -, -, hNone | hOwner⟩
  · cases hNone
  · exact hOther hOwner

theorem onUas_other {tm : Tm} {k d : Nat} (f : Ctl → Ctl) (hOther : (tm.tx k).uas_owner ≠ some d) :
    (onUas k (some d) f).run tm = some (.error .NOT_FOUND, tm) := by
  have hMissing : ¬ (uasLookup tm k (some d)).isSome = true := by
    rw [uasLookup_other hOther]
    exact Bool.false_ne_true
  simp only [onUas, Op.run_bind, Op.run_get, Op.andThen_ok, Op.run_require, if_neg hMissing,
    Op.andThen_error]

namespace World

/-- What is invoked of dialogs is invoked of dialogs that are there, unless a callback destroys its
dialog and has it ended. -/
theorem invokes_there_iff {w : World} (h : w.Reachable) (l : Label) :
    (∀ d, w.InvokesOwner l d → (w.dialogs d).isSome) ↔ ¬ w.EndsDestroyed l := by
  constructor
  · rintro hThere ⟨rfl, d, handler, stack, hStack, hGone⟩
    have hSome := hThere d (.ends handler stack hStack rfl)
    rw [hGone] at hSome
    cases hSome
  · rintro hSpared d (⟨k, hCalls⟩ | ⟨handler, stack, hStack, rfl⟩)
    · exact ReachableBy.held h |>.there k d hCalls.owner
    · by_contra hNone
      exact hSpared ⟨rfl, d, handler, stack, hStack, Option.not_isSome_iff_eq_none.mp hNone⟩

/-- An INVITE from a peer at `sip:p`. -/
def inviteMsg : Msg :=
  let via := Str.lit (bytes "SIP/2.0/UDP h;branch=z")
  let call_id := Str.lit (bytes "c")
  { sline := .req .INVITE (Str.lit (bytes "sip:b@h"))
    hdrs := [
      { hf_type := .VIA, value := via
        parsed := some (.via { params := [⟨⟨via.src, 14, 6⟩, ⟨via.src, 21, 1⟩⟩] }) },
      nameaddrHdr .FROM "<sip:a@h>;tag=1", nameaddrHdr .TO "<sip:b@h>",
      nameaddrHdr .CONTACT "<sip:p>",
      { hf_type := .CALLID, value := call_id, parsed := some (.generic call_id) },
      { hf_type := .CSEQ, value := Str.lit (bytes "1 INVITE")
        parsed := some (.cseq { val := 1, method := .INVITE }) }] }

/-- An INVITE answered with a dialog. -/
def inviteAnswered : List Label :=
  [.call (.newUasTr (receivedFrom inviteMsg)), .call (.dialogUasCtor 0 { status := resOk })]

/-- The dialog of an INVITE answered, with a no_ack callback, whose 200 is sent and whose ACK does not
come: its callback destroys the dialog. -/
def inviteUnacked : List Label :=
  [.call (.newUasTr (receivedFrom inviteMsg)),
    .call (.dialogUasCtor 0 { status := resOk, callbacks := some { no_ack := true } }),
    .call (.run 1 true), .turn 0, .turn 0, .call (.run 40000 true), .turn 0, .call (.dialogDtor 0)]

/-- A no_ack callback of a dialog that was made. -/
def Frame.tellsOf (d : Nat) : Frame → Bool
  | .dialogNoAck e _ => e == d
  | _ => false

end World

end Microsippy
