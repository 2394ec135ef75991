import Microsippy.WorldMoves

/-! # A turn that sends

What the turn of one slot in `usipy_sip_tm_run` does to the others when it comes to a send, whether
`send_to` answers that it failed or not.
-/

namespace Microsippy

set_option autoImplicit false

/-! ## Owners -/

/-- A server transaction that a dialog owns is the INVITE the dialog names. -/
def Sys.Owned (s : Sys) : Prop :=
  ∀ k d, (s.tm.tx k).role = .UAS → (s.tm.tx k).uas_owner = some d →
    d < s.next_dialog ∧ ∀ dp, s.dialogs d = some dp → dp.invite_index = some k

theorem Moves.owner {allow : Allow} {tm tm' : Tm} (h : Moves allow tm tm') (hOwns : ¬ allow.owns)
    {k d : Nat} (hRole : (tm'.tx k).role = .UAS) (hOwner : (tm'.tx k).uas_owner = some d) :
    (tm.tx k).role = .UAS ∧ (tm.tx k).uas_owner = some d := by
  induction h with
  | refl => exact ⟨hRole, hOwner⟩
  | @tail t u _ hStep ih =>
    have hBack : (t.tx k).role = .UAS ∧ (t.tx k).uas_owner = some d := by
      cases hStep with
      | inl hAct =>
        cases hAct.slot k with
        | inl hUac =>
          rw [hUac] at hRole
          cases hRole
        | inr hKept =>
          refine ⟨hKept.ctl.life.role.symm.trans hRole, ?_⟩
          cases hKept.ctl.owner.resolve_left hOwns with
          | inl hSame => exact hSame.symm.trans hOwner
          | inr hNone => exact absurd (hNone.symm.trans hOwner) (by simp)
      | inr hEnters =>
        obtain ⟨j, tp, hBorn, hUas, hOk, hFree, hSlot⟩ := hEnters
        by_cases hk : k = j
        · subst hk
          rw [Tm.enter, Tm.set_same, hFree] at hOwner
          cases hOwner
        · rw [Tm.enter, Tm.set_other _ _ hk] at hRole hOwner
          exact ⟨hRole, hOwner⟩
    exact ih hBack.1 hBack.2

theorem Sys.Moves.owned {allow : Allow} {s s' : Sys} (h : s.Moves allow s') (hOwns : ¬ allow.owns)
    (hOwned : s.Owned) : s'.Owned := by
  intro k d hRole hOwner
  obtain ⟨hRoleOld, hOwnerOld⟩ := h.slots.owner hOwns hRole hOwner
  obtain ⟨hLt, hNames⟩ := hOwned k d hRoleOld hOwnerOld
  refine ⟨Nat.lt_of_lt_of_le hLt h.next, fun dp' hIs => ?_⟩
  obtain ⟨dp, hWas, hSame⟩ := h.dialogs d dp' hLt hIs
  exact hSame.trans (hNames dp hWas)

/-- A dialog made that owns its INVITE. -/
def Sys.adopt (index : Nat) (dp : Dialog) (s : Sys) : Sys :=
  { s with tm := s.tm.set index { s.tm.tx index with uas_owner := some s.next_dialog }
           dialogs := fun e => if e = s.next_dialog then some dp else s.dialogs e
           next_dialog := s.next_dialog + 1 }

theorem Sys.adopt_uasOk {s : Sys} (index : Nat) (dp : Dialog) (hOk : s.UasOk) : (s.adopt index dp).UasOk := by
  intro k hRole
  by_cases hk : k = index
  · subst hk
    simp only [adopt, Tm.set_same] at hRole ⊢
    have hWas := hOk k hRole
    exact ⟨hWas.active, hWas.method, hWas.same, hWas.timed⟩
  · simp only [adopt, Tm.set_other _ _ hk] at hRole ⊢
    exact hOk k hRole

/-- What keeps a property of dialogs and their INVITEs. -/
def Sys.Stays (P : Sys → Prop) (s s' : Sys) : Prop := s.UasOk ∧ P s → s'.UasOk ∧ P s'

instance (P : Sys → Prop) : IsPreorder Sys (Sys.Stays P) where
  refl _ := id
  trans _ _ _ h h' := h' ∘ h

theorem stays_moves {α : Type} {P : Sys → Prop} {x : SysM α}
    (hMoves : ∀ s s' : Sys, s.UasOk → s.Moves {} s' → P s → P s')
    (hx : Op.KeepsFrom Sys.UasOk (Sys.Moves {}) x) : Op.Keeps (Sys.Stays P) x := by
  rintro s r s' hRun ⟨hOk, hP⟩
  have hWent := hx s r s' hOk hRun
  exact ⟨hWent.slots.uasOk hOk, hMoves s s' hOk hWent hP⟩

/-- The rule of making a server's dialog: moves, and then a dialog that owns its INVITE. -/
theorem stays_dialogUasCtor {P : Sys → Prop} (invite_index : Nat) (rpp : UasResponseParams)
    (hMoves : ∀ s s' : Sys, s.UasOk → s.Moves {} s' → P s → P s')
    (hAdopt : ∀ (s : Sys) (dp : Dialog), dp.invite_index = some invite_index →
      (uasLookup s.tm invite_index none).isSome → P s → P (s.adopt invite_index dp)) :
    Op.Keeps (Sys.Stays P) (dialogUasCtor invite_index rpp) := by
  refine .failWith (.bind (.require _ _) fun _ => .bind .get fun s => .bind (.orElse _ _) fun tp => ?_) _
  refine .bind (stays_moves hMoves (moves_onLocalHeap _ _).from) fun tpp => ?_
  refine .bind (stays_moves hMoves (moves_onTm (Acts.to_moves (acts_sendUasResponse _ _)))) fun _ => ?_
  intro s r s' hRun
  simp only [Op.run_bind, Op.run_get, Op.andThen_ok] at hRun
  cases hSet : (onTm (uasSetOwner invite_index s.next_dialog)).run s with
  | none =>
    rw [hSet] at hRun
    cases hRun
  | some out =>
    obtain ⟨r₁, s₁⟩ := out
    rw [hSet] at hRun
    obtain ⟨tm, hPart, rfl⟩ := Op.zoom_some.mp hSet
    obtain ⟨hFound, rfl, rfl⟩ | ⟨-, rfl, rfl⟩ := onUas_some hPart
    · simp only [addDialog, Op.run_bind, Op.run_get, Op.andThen_ok, Op.run_modify, Op.run_pure] at hRun
      obtain ⟨-, rfl⟩ := Prod.mk.inj (Option.some.inj hRun)
      rintro ⟨hOk, hP⟩
      exact ⟨Sys.adopt_uasOk invite_index _ hOk, hAdopt s _ rfl hFound hP⟩
    · obtain ⟨-, rfl⟩ := Prod.mk.inj (Option.some.inj hRun)
      exact id

theorem Sys.Owned.adopt {s : Sys} {index : Nat} {dp : Dialog} (hOwned : s.Owned)
    (hNames : dp.invite_index = some index) : (s.adopt index dp).Owned := by
  intro k d hRole hOwner
  by_cases hk : k = index
  · subst hk
    simp only [Sys.adopt, Tm.set_same] at hOwner
    obtain rfl := Option.some.inj hOwner
    refine ⟨Nat.lt_succ_self _, fun dp' hIs => ?_⟩
    simp only [Sys.adopt, if_true] at hIs
    obtain rfl := Option.some.inj hIs
    exact hNames
  · simp only [Sys.adopt, Tm.set_other _ _ hk] at hRole hOwner
    obtain ⟨hLt, hOld⟩ := hOwned k d hRole hOwner
    refine ⟨Nat.lt_succ_of_lt hLt, fun dp' hIs => hOld dp' ?_⟩
    simpa only [Sys.adopt, if_neg (Nat.ne_of_lt hLt)] using hIs

namespace World

theorem step_owned {w w' : World} {l : Label} (hOk : w.tm.UasOk) (hOwned : w.toSys.Owned)
    (hStep : w.step l = some w') : w'.toSys.Owned := by
  by_cases hOwns : (w.grants l).owns
  · obtain ⟨index, rpp, rfl⟩ := hOwns
    simp only [step] at hStep
    split at hStep
    · simp only [perform, answerIndex, World.after] at hStep
      cases hRun : (dialogUasCtor index rpp).run w.toSys with
      | none =>
        rw [hRun] at hStep
        cases hStep
      | some out =>
        obtain ⟨r, s⟩ := out
        rw [hRun] at hStep
        obtain rfl := Option.some.inj hStep
        exact (stays_dialogUasCtor index rpp (fun _ _ _ hMoves => hMoves.owned id)
          (fun _ _ hNames _ hOld => hOld.adopt hNames) _ _ _ hRun ⟨hOk, hOwned⟩).2
    · cases hStep
  · exact (step_went hOk hStep).moves.owned hOwns hOwned

theorem ReachableBy.owned {ok : World → Label → Prop} {w : World} (h : ReachableBy ok w) :
    w.toSys.Owned := by
  obtain ⟨p, tm, hCtor, hRun⟩ := h
  have hBoth : w.tm.UasOk ∧ w.toSys.Owned := by
    induction hRun with
    | refl =>
      refine ⟨start_uasOk hCtor, fun k d hRole _ => ?_⟩
      rw [show (start tm).tm.tx = freshSlot from (Tm.ctor_fresh hCtor).1] at hRole
      cases hRole
    | snoc _ _ hStep ih => exact ⟨(step_moves ih.1 hStep).uasOk ih.1, step_owned ih.1 ih.2 hStep⟩
  exact hBoth.2

end World

/-! ## A client's turn -/

/-- A transaction that goes on as it was, its child left. -/
structure Ctl.GoesOn (c c' : Ctl) : Prop where
  active : c'.active = c.active
  role : c'.role = c.role
  state : c'.state = c.state
  terminated : c'.terminated = c.terminated
  child : c'.child_index = c.child_index

instance : IsPreorder Ctl Ctl.GoesOn where
  refl _ := ⟨rfl, rfl, rfl, rfl, rfl⟩
  trans _ _ _ h h' := ⟨h'.active.trans h.active, h'.role.trans h.role, h'.state.trans h.state,
    h'.terminated.trans h.terminated, h'.child.trans h.child⟩

namespace Ctl

variable {p : TimerPolicy} {now : UInt64} {c c' : Ctl}

theorem armCleanup_goesOn (h : c.armCleanup p now = some c') : c.GoesOn c' := by
  obtain ⟨invite, rfl⟩ := armCleanup_some h
  exact ⟨rfl, rfl, rfl, rfl, rfl⟩

theorem scheduleResend_goesOn {done : Bool} (h : c.scheduleResend p now done = some c') :
    c.GoesOn c' := by
  rw [scheduleResend] at h
  split at h
  · obtain rfl := Option.some.inj h
    exact ⟨rfl, rfl, rfl, rfl, rfl⟩
  · obtain ⟨ms, -, rfl⟩ := Option.map_eq_some_iff.mp h
    exact ⟨rfl, rfl, rfl, rfl, rfl⟩

theorem postSendInvite_goesOn (h : c.postSendInvite p now = some c') : c.GoesOn c' := by
  rw [postSendInvite] at h
  split at h
  · obtain rfl := Option.some.inj h
    exact ⟨rfl, rfl, rfl, rfl, rfl⟩
  · simp only [Option.bind_eq_bind, Option.bind_eq_some_iff] at h
    obtain ⟨iv, -, iv', -, h⟩ := h
    have hFirst : c.GoesOn { c with invite := some iv' } := ⟨rfl, rfl, rfl, rfl, rfl⟩
    exact IsTrans.trans _ _ _ hFirst (scheduleResend_goesOn h)

theorem postSendNoninvite_goesOn (h : c.postSendNoninvite p now = some c') : c.GoesOn c' := by
  simp only [postSendNoninvite, Option.bind_eq_bind] at h
  split at h
  · obtain ⟨c₁, hFirst, h⟩ := Option.bind_eq_some_iff.mp h
    obtain ⟨ms, -, rfl⟩ := Option.map_eq_some_iff.mp hFirst
    have hArmed : c.GoesOn (c.arm .F ms now) := ⟨rfl, rfl, rfl, rfl, rfl⟩
    exact IsTrans.trans _ _ _ hArmed (scheduleResend_goesOn h)
  · exact scheduleResend_goesOn h

theorem uacSent_goesOn (h : c.uacSent p now = some c') : c.GoesOn c' := by
  have hNoted : c.GoesOn (c.noteSend now) := ⟨rfl, rfl, rfl, rfl, rfl⟩
  refine IsTrans.trans _ _ _ hNoted ?_
  simp only [uacSent] at h
  split at h
  · obtain rfl := Option.some.inj h
    exact ⟨rfl, rfl, rfl, rfl, rfl⟩
  · split at h
    · exact postSendInvite_goesOn h
    · exact postSendNoninvite_goesOn h

end Ctl

theorem Txi.Quiet.goesOn {tp tp' : Txi} (h : tp.Quiet tp') : tp.toCtl.GoesOn tp'.toCtl := by
  rw [h.ctl]
  exact ⟨rfl, rfl, rfl, rfl, rfl⟩

/-- Slot `i`'s turn comes to a send, but for the building of a request. -/
structure Tm.Sends (now : UInt64) (i : Nat) (tm : Tm) : Prop where
  inTable : i < tm.max_transactions
  active : (tm.tx i).active = true
  live : (tm.tx i).state ≠ .TERMINATED
  early : (tm.tx i).timerDue now = false
  sending : (tm.tx i).notSending now = false
  goesOn : (tm.tx i).role = .UAC → (tm.tx i).terminated = false
  pending : (tm.tx i).role = .UAC →
    ∀ c, (tm.tx i).armCleanup (tm.tx i).timers now = some c → c.inviteExpired now = false

/-- A change to slot `i` only, which goes on. -/
def Tm.SetsOnly (i : Nat) (tm tm' : Tm) : Prop :=
  ∃ tp, tm' = tm.set i tp ∧ (tm.tx i).GoesOn tp.toCtl

theorem uacRun_sends {tm tm' : Tm} {now : UInt64} {i : Nat} {r : Except TmError UacTurn}
    (h : tm.Sends now i) (hRole : (tm.tx i).role = .UAC) (hRun : (uacRun i now).run tm = some (r, tm')) :
    tm.SetsOnly i tm' ∧ (r = .ok .send ∨ (tm.tx i).raw.l = 0 ∧ ∃ e, r = .error e) := by
  have hLive : ¬ ((tm.tx i).state = .TERMINATED ∨ (tm.tx i).terminated = true) := by
    rintro (hEnded | hStopped)
    · exact h.live hEnded
    · exact Bool.noConfusion ((h.goesOn hRole).symm.trans hStopped)
  rw [uacRun, Op.run_bind, Op.run_get, Op.andThen_ok, if_neg hLive, Op.run_bind] at hRun
  cases hArm : (onSlot i fun _ => uacArmCleanup now).run tm with
  | none =>
    rw [hArm] at hRun
    cases hRun
  | some out =>
    obtain ⟨r₁, tm₁⟩ := out
    rw [hArm] at hRun
    obtain ⟨tp, hPart, rfl⟩ := onSlot_some hArm
    obtain ⟨c, hc, rfl, rfl⟩ := setCtl_some hPart
    obtain ⟨invite, hIs⟩ := Ctl.armCleanup_some hc
    have hPending := h.pending hRole c hc
    have hEarly : c.timerDue now = false := by rw [hIs]; exact h.early
    have hSending : c.notSending now = false := by rw [hIs]; exact h.sending
    have hGoesOn := Ctl.armCleanup_goesOn hc
    rw [Op.andThen_ok, Op.run_bind, Op.run_get, Op.andThen_ok] at hRun
    simp only [Tm.set_same, hPending, hEarly, hSending, Bool.false_eq_true, if_false] at hRun
    split at hRun
    · rename_i hRaw
      rw [Op.run_bind] at hRun
      cases hBuild : (onSlot i fun tm => buildRequest tm i {}).run
          (tm.set i { tm.tx i with toCtl := c }) with
      | none =>
        rw [hBuild] at hRun
        cases hRun
      | some out =>
        obtain ⟨r₂, tm₂⟩ := out
        rw [hBuild] at hRun
        obtain ⟨tp₂, hPart₂, rfl⟩ := onSlot_some hBuild
        rw [Tm.set_same] at hPart₂
        have hBuilt := (quiet_buildRequest _ _ _ _ _ _ hPart₂).goesOn
        have hOnly : tm.SetsOnly i ((tm.set i { tm.tx i with toCtl := c }).set i tp₂) :=
          ⟨tp₂, Tm.set_set _ _ _ _, IsTrans.trans _ _ _ hGoesOn hBuilt⟩
        cases r₂ with
        | error e =>
          obtain ⟨rfl, rfl⟩ := Prod.mk.inj (Option.some.inj hRun)
          exact ⟨hOnly, Or.inr ⟨hRaw, e, rfl⟩⟩
        | ok u =>
          obtain ⟨rfl, rfl⟩ := Prod.mk.inj (Option.some.inj hRun)
          exact ⟨hOnly, Or.inl rfl⟩
    · obtain ⟨rfl, rfl⟩ := Prod.mk.inj (Option.some.inj hRun)
      exact ⟨⟨_, rfl, hGoesOn⟩, Or.inl rfl⟩

theorem uacSent_some {tm tm' : Tm} {now : UInt64} {i : Nat} {r : Except TmError Bool}
    (hRun : (uacSent i now).run tm = some (r, tm')) :
    ∃ c, (tm.tx i).GoesOn c ∧
      ((∃ b, c.child_index = some b ∧ r = .ok true ∧
          tm' = (tm.set i { tm.tx i with toCtl := c }).armBye i b now) ∨
        r = .ok false ∧ tm' = tm.set i { tm.tx i with toCtl := c }) := by
  rw [uacSent, Op.run_bind] at hRun
  cases hNote : (onSlot i fun _ => setCtl fun p c => c.uacSent p now).run tm with
  | none =>
    rw [hNote] at hRun
    cases hRun
  | some out =>
    obtain ⟨r₁, tm₁⟩ := out
    rw [hNote] at hRun
    obtain ⟨tp, hPart, rfl⟩ := onSlot_some hNote
    obtain ⟨c, hc, rfl, rfl⟩ := setCtl_some hPart
    refine ⟨c, Ctl.uacSent_goesOn hc, ?_⟩
    rw [Op.andThen_ok, Op.run_bind, Op.run_get, Op.andThen_ok] at hRun
    simp only [Tm.set_same] at hRun
    split at hRun
    · rename_i bye_index hAck hBye
      obtain ⟨rfl, rfl⟩ := Prod.mk.inj (Option.some.inj hRun)
      exact Or.inl ⟨bye_index, hBye, rfl, rfl⟩
    · obtain ⟨rfl, rfl⟩ := Prod.mk.inj (Option.some.inj hRun)
      exact Or.inr ⟨rfl, rfl⟩

theorem Tm.armBye_other {tm : Tm} {i b j : Nat} (now : UInt64) (hj : j ≠ i) (hb : j ≠ b) :
    (tm.armBye i b now).tx j = tm.tx j := by
  rw [Tm.armBye, Tm.set_other _ _ hj, Tm.set_other _ _ hb]

theorem uacSent_others {tm tm' : Tm} {now : UInt64} {i : Nat} {r : Except TmError Bool}
    (hRun : (uacSent i now).run tm = some (r, tm')) :
    (∃ bye, r = .ok bye) ∧ ∀ j, j ≠ i → (tm.tx i).child_index ≠ some j → tm'.tx j = tm.tx j := by
  obtain ⟨c, hGoesOn, ⟨b, hBye, rfl, rfl⟩ | ⟨rfl, rfl⟩⟩ := uacSent_some hRun
  · refine ⟨⟨true, rfl⟩, fun j hj hNot => ?_⟩
    have hb : j ≠ b := by
      rintro rfl
      exact hNot (hGoesOn.child.symm.trans hBye)
    rw [Tm.armBye_other now hj hb, Tm.set_other _ _ hj]
  · exact ⟨⟨false, rfl⟩, fun j hj _ => Tm.set_other _ _ hj⟩

/-! ## A server's turn -/

/-- Every slot but one left as it was. -/
def Sys.LeavesOthers (i : Nat) (s s' : Sys) : Prop := ∀ j, j ≠ i → s'.tm.tx j = s.tm.tx j

instance (i : Nat) : IsPreorder Sys (Sys.LeavesOthers i) where
  refl _ _ _ := rfl
  trans _ _ _ h h' j hj := (h' j hj).trans (h j hj)

theorem others_uasSendAt (i owner : Nat) (at_ms : UInt64) :
    Op.Keeps (Sys.LeavesOthers i) (onTm (uasSendAt i owner at_ms)) := by
  intro s r s' hRun j hj
  obtain ⟨tm, hPart, rfl⟩ := Op.zoom_some.mp hRun
  simp only [uasSendAt, onUas, Op.run_bind, Op.run_get, Op.andThen_ok, Op.run_require] at hPart
  split at hPart
  · obtain ⟨tp, -, rfl⟩ := onSlot_some hPart
    exact Tm.set_other _ _ hj
  · obtain ⟨-, rfl⟩ := Prod.mk.inj (Option.some.inj hPart)
    rfl

theorem dialogUasSent_others {d i : Nat} {now : UInt64} {s s' : Sys} {r : Except TmError Unit}
    (hNames : ∀ dp, s.dialogs d = some dp → dp.invite_index = some i)
    (hRun : (dialogUasSent d now).run s = some (r, s')) : s.LeavesOthers i s' := by
  rw [dialogUasSent, getDialog, Op.run_bind, Op.run_bind, Op.run_get, Op.andThen_ok] at hRun
  cases hd : s.dialogs d with
  | none =>
    rw [hd] at hRun
    cases hRun
  | some dp =>
    rw [hd, Op.run_demand_some, Op.andThen_ok, Op.run_bind, hNames dp hd, Op.run_demand_some,
      Op.andThen_ok] at hRun
    refine Op.Keeps.ite (fun _ => .pure _) (fun _ => .bind (.attempt (others_uasSendAt _ _ _)) fun r => ?_)
      _ _ _ hRun
    cases r with
    | error e => exact .pure _
    | ok u => exact .bind (.bind .get fun _ => .demand _) fun _ => .modify fun _ _ _ => rfl

theorem dialogTold_others {owner : Option Nat} {i : Nat} {now : UInt64} {s s' : Sys}
    {r : Except TmError Unit}
    (hRun : (match owner with
      | some d => dialogUasSent d now
      | none => pure () : SysM Unit).run s = some (r, s'))
    (hNames : ∀ d, owner = some d → ∀ dp, s.dialogs d = some dp → dp.invite_index = some i) :
    s.LeavesOthers i s' := by
  cases owner with
  | none =>
    obtain ⟨-, rfl⟩ := Prod.mk.inj (Option.some.inj hRun)
    exact Std.Refl.refl _
  | some d => exact dialogUasSent_others (hNames d rfl) hRun

theorem Ctl.startTimerL_owner (now : UInt64) (c : Ctl) : (c.startTimerL now).uas_owner = c.uas_owner := by
  rw [Ctl.startTimerL]
  split <;> rfl

/-! ## The turn -/

namespace World

/-- What comes of a turn that sends: the run goes on with the next slot, or ends with the error of
`send_to` or of the building of the request. -/
inductive TurnEnds (w : World) (now : UInt64) (i : Nat) (stack : List Frame) (rval : Int) : World → Prop
  | sent (w' : World) (outp : Option RunOut) (born : Nat) (raw : Bytes) (target : Addr) (hSent : rval = 0)
      (hStack : w'.stack = .run now (i + 1) outp :: stack)
      (hLog : w'.log = w.log ++ [.send i born raw target 0]) : TurnEnds w now i stack rval w'
  | failed (w' : World) (born : Nat) (raw : Bytes) (target : Addr) (hFailed : rval ≠ 0)
      (hStack : w'.stack = stack)
      (hLog : w'.log = w.log ++ [.send i born raw target rval, .reply (.error (.user rval))]) :
      TurnEnds w now i stack rval w'
  | notBuilt (w' : World) (e : TmError) (hBuilding : (w.tm.tx i).role = .UAC ∧ (w.tm.tx i).raw.l = 0)
      (hStack : w'.stack = stack) (hLog : w'.log = w.log ++ [.reply (.error e)]) :
      TurnEnds w now i stack rval w'

theorem uacVisit_ends {w w' : World} {now : UInt64} {i : Nat} {outp : Option RunOut} {stack : List Frame}
    {rval : Int} (hSends : w.tm.Sends now i) (hRole : (w.tm.tx i).role = .UAC)
    (hStep : uacVisit now i outp rval { w with stack } = some w') :
    w.TurnEnds now i stack rval w' ∧
      ∀ j, j ≠ i → (w.tm.tx i).child_index ≠ some j → w'.tm.tx j = w.tm.tx j := by
  rw [uacVisit, World.after] at hStep
  cases hRun : (onTm (uacRun i now)).run w.toSys with
  | none =>
    simp only [hRun] at hStep
    cases hStep
  | some out =>
    obtain ⟨r, s⟩ := out
    simp only [hRun] at hStep
    obtain ⟨tm, hPart, rfl⟩ := Op.zoom_some.mp hRun
    obtain ⟨⟨tp, rfl, hGoesOn⟩, hTurn | ⟨hRaw, e, rfl⟩⟩ := uacRun_sends hSends hRole hPart
    · subst hTurn
      simp only at hStep
      split at hStep
      · rename_i hFailed
        obtain rfl := Option.some.inj hStep
        refine ⟨.failed _ _ _ _ hFailed rfl (List.append_assoc _ _ _), fun j hj _ => ?_⟩
        exact Tm.set_other _ _ hj
      · rename_i hSent
        have hZero : rval = 0 := not_not.mp hSent
        subst hZero
        rw [World.after] at hStep
        cases hAfter : (onTm (uacSent i now)).run { w.toSys with tm := w.tm.set i tp } with
        | none =>
          simp only [send, emit, hAfter] at hStep
          cases hStep
        | some out =>
          obtain ⟨r₂, s₂⟩ := out
          simp only [send, emit, hAfter] at hStep
          obtain ⟨tm₂, hPart₂, rfl⟩ := Op.zoom_some.mp hAfter
          obtain ⟨⟨bye, rfl⟩, hOthers⟩ := uacSent_others hPart₂
          obtain rfl := Option.some.inj hStep
          refine ⟨.sent _ _ _ _ _ rfl rfl rfl, fun j hj hNot => ?_⟩
          rw [Tm.set_same, hGoesOn.child] at hOthers
          exact (hOthers j hj hNot).trans (Tm.set_other _ _ hj)
    · obtain rfl := Option.some.inj hStep
      exact ⟨.notBuilt _ e ⟨hRole, hRaw⟩ rfl rfl, fun j hj _ => Tm.set_other _ _ hj⟩

theorem uasVisit_ends {w w' : World} {now : UInt64} {i : Nat} {outp : Option RunOut} {stack : List Frame}
    {rval : Int} (hOwned : w.toSys.Owned) (hSends : w.tm.Sends now i) (hRole : (w.tm.tx i).role = .UAS)
    (hStep : uasVisit now i outp rval { w with stack } = some w') :
    w.TurnEnds now i stack rval w' ∧ ∀ j, j ≠ i → w'.tm.tx j = w.tm.tx j := by
  have hRun : (onTm (uasRun i now)).run w.toSys = some (.ok .send, { w.toSys with
      tm := w.tm.set i { w.tm.tx i with toCtl := (w.tm.tx i).startTimerL now } }) :=
    Op.zoom_some.mpr ⟨_, uasRun_of_sending hSends.early hSends.live hSends.sending, rfl⟩
  rw [uasVisit, World.after] at hStep
  simp only [hRun] at hStep
  split at hStep
  · rename_i hFailed
    obtain rfl := Option.some.inj hStep
    refine ⟨.failed _ _ _ _ hFailed rfl (List.append_assoc _ _ _), fun j hj => ?_⟩
    exact Tm.set_other _ _ hj
  · rename_i hSent
    have hZero : rval = 0 := not_not.mp hSent
    subst hZero
    rw [World.after] at hStep
    cases hAfter : (onTm (uasSent i now)).run { w.toSys with
        tm := w.tm.set i { w.tm.tx i with toCtl := (w.tm.tx i).startTimerL now } } with
    | none =>
      simp only [send, emit, hAfter] at hStep
      cases hStep
    | some out =>
      obtain ⟨r₂, s₂⟩ := out
      simp only [send, emit, hAfter] at hStep
      obtain ⟨tm₂, hPart₂, rfl⟩ := Op.zoom_some.mp hAfter
      obtain ⟨c, hc, rfl, rfl⟩ := uasSent_some hPart₂
      simp only [World.after] at hStep
      split at hStep
      · cases hStep
      · rename_i r₃ s₃ hTold
        have hOthers : w.toSys.LeavesOthers i s₃ := by
          refine IsTrans.trans _ _ _ (fun j hj => ?_) (dialogTold_others hTold fun d hOwner dp hIs => ?_)
          · simp only [Tm.set_set, Tm.set_other _ _ hj]
          · rw [Tm.set_same, Ctl.startTimerL_owner] at hOwner
            refine (hOwned i d hRole ?_).2 dp hIs
            split at hOwner
            · exact hOwner
            · cases hOwner
        split at hStep
        · cases hStep
        · obtain rfl := Option.some.inj hStep
          exact ⟨.sent _ _ _ _ _ rfl rfl rfl, hOthers⟩

/-- The turn of a slot that comes to a send leaves every other transaction that is not its child as it
was, whether the send or the building of the request fails or not; and the run goes on with the next slot
or ends with that error. -/
theorem turn_leaves_others {w w' : World} {now : UInt64} {i : Nat} {outp : Option RunOut}
    {stack : List Frame} {rval : Int} (hReachable : w.Reachable)
    (hStack : w.stack = .run now i outp :: stack) (hSends : w.tm.Sends now i)
    (hStep : w.step (.turn rval) = some w') :
    w.TurnEnds now i stack rval w' ∧
      ∀ j, j ≠ i → (w.tm.tx i).child_index ≠ some j → w'.tm.tx j = w.tm.tx j := by
  simp only [step, hStack, visit, Nat.not_le.mpr hSends.inTable, if_false, hSends.active,
    Bool.not_true, Bool.false_eq_true] at hStep
  cases hRole : (w.tm.tx i).role with
  | UAC =>
    rw [hRole] at hStep
    exact uacVisit_ends hSends hRole hStep
  | UAS =>
    rw [hRole] at hStep
    obtain ⟨hEnds, hOthers⟩ := uasVisit_ends hReachable.owned hSends hRole hStep
    exact ⟨hEnds, fun j hj _ => hOthers j hj⟩

end World

end Microsippy
