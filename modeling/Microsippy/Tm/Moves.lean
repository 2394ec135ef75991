import Microsippy.Tm.Filled

/-! # What the manager does to its slots

The functions of the manager as acts, and those that make server transactions as moves.
-/

namespace Microsippy

set_option autoImplicit false

variable {undone : Undone} {allow : Allow}

instance {σ : Type} {P Q : σ → Prop} {R : σ → σ → Prop} [Op.Stable P R] [Op.Stable Q R] :
    Op.Stable (fun s => P s ∧ Q s) R :=
  ⟨fun s s' h hBoth => ⟨Op.Stable.stays s s' h hBoth.1, Op.Stable.stays s s' h hBoth.2⟩⟩

instance : IsPreorder Tm (Acts allow) where
  refl _ := .refl
  trans _ _ _ := .trans

instance : IsPreorder Tm (Moves allow) where
  refl _ := .refl
  trans _ _ _ := .trans

instance : Op.Stable (fun tp : Txi => tp.role = .UAC) (Txi.SameLife undone) :=
  ⟨fun _ _ h hRole => h.life.role.trans hRole⟩

/-! ## One slot -/

theorem onSlot_some {α : Type} {i : Nat} {x : Tm → TxM α} {tm tm' : Tm} {r : Except TmError α}
    (hRun : (onSlot i x).run tm = some (r, tm')) :
    ∃ tp, (x tm).run (tm.tx i) = some (r, tp) ∧ tm.set i tp = tm' := by
  simp only [Op.run, onSlot] at hRun
  split at hRun
  · cases hRun
  · rename_i r₁ tp hPart
    obtain ⟨rfl, rfl⟩ := Prod.mk.inj (Option.some.inj hRun)
    exact ⟨tp, hPart, rfl⟩

/-- Work on a client's slot. -/
theorem acts_work {α : Type} {j : Nat} {x : Tm → TxM α}
    (hx : ∀ tm, Op.KeepsFrom (fun tp => tp.role = .UAC) (Txi.SameLife (allow.undone j))
      (x tm)) :
    Op.KeepsFrom (Tm.Uac j) (Acts allow) (onSlot j x) := by
  intro tm r tm' hUac hRun
  obtain ⟨tp, hPart, rfl⟩ := onSlot_some hRun
  exact .single (.work j tp hUac.2 (hx tm _ _ _ hUac.2 hPart))

/-- Work on any slot. -/
theorem acts_stay {α : Type} {j : Nat} {x : Tm → TxM α}
    (hx : ∀ tm, Op.Keeps (Txi.Lasts allow) (x tm)) : Op.Keeps (Acts allow) (onSlot j x) := by
  intro tm r tm' hRun
  obtain ⟨tp, hPart, rfl⟩ := onSlot_some hRun
  exact .single (.stay j tp (hx tm _ _ _ hPart))

theorem acts_modCtl {j : Nat} {f : Ctl → Ctl} (h : ∀ c : Ctl, c.Rests allow (f c)) :
    Op.Keeps (Acts allow) (onSlot j fun _ => modCtl f) := acts_stay fun _ => lasts_modCtl h

/-- What is known of a slot that is being filled. -/
def Tm.Free (j : Nat) (tm : Tm) : Prop :=
  tm.Uac j ∧ (tm.tx j).active = false ∧ j < tm.max_transactions

/-- What is known of a client transaction. -/
def Tm.Live (j : Nat) (tm : Tm) : Prop := tm.Uac j ∧ (tm.tx j).active = true

/-- Acts that leave a slot's transaction as it was. -/
structure Tm.ActsOn (allow : Allow) (j : Nat) (tm tm' : Tm) : Prop where
  acts : Acts allow tm tm'
  life : (tm.tx j).SameLife (allow.undone j) (tm'.tx j)

instance (j : Nat) : IsPreorder Tm (Tm.ActsOn allow j) where
  refl _ := ⟨.refl, Std.Refl.refl _⟩
  trans _ _ _ h h' := ⟨.trans h.acts h'.acts, IsTrans.trans _ _ _ h.life h'.life⟩

instance (j : Nat) : Op.Stable (Tm.Live j) (Tm.ActsOn allow j) :=
  ⟨fun _ _ h hLive => ⟨h.acts.uac hLive.1, h.life.life.active.trans hLive.2⟩⟩

instance (j : Nat) : Op.Stable (Tm.Free j) (Tm.ActsOn allow j) :=
  ⟨fun _ _ h hFree =>
    ⟨h.acts.uac hFree.1, h.life.life.active.trans hFree.2.1, h.acts.moves.max ▸ hFree.2.2⟩⟩

theorem actsOn_work {α : Type} {j : Nat} {x : Tm → TxM α}
    (hx : ∀ tm, Op.KeepsFrom (fun tp => tp.role = .UAC) (Txi.SameLife (allow.undone j))
      (x tm)) :
    Op.KeepsFrom (Tm.Uac j) (Tm.ActsOn allow j) (onSlot j x) := by
  intro tm r tm' hUac hRun
  obtain ⟨tp, hPart, rfl⟩ := onSlot_some hRun
  have hLife := hx tm _ _ _ hUac.2 hPart
  exact ⟨.single (.work j tp hUac.2 hLife), by rwa [Tm.set_same]⟩

/-! ## Slots taken and given back -/

theorem acts_dropTransaction (index : Nat) :
    Op.KeepsFrom (fun tm => tm.ChildOf index index → allow.twice) (Acts allow)
      (dropTransaction index) := by
  intro tm r tm' hTwice hRun
  simp only [dropTransaction, Op.run_bind, Op.run_get, Op.andThen_ok, Op.run_require,
    Op.run_modify] at hRun
  split at hRun
  · rename_i hIndex
    split at hRun
    · rename_i hActive
      obtain ⟨-, rfl⟩ := Prod.mk.inj (Option.some.inj hRun)
      exact .single (.drop index hIndex hActive hTwice)
    · obtain ⟨-, rfl⟩ := Prod.mk.inj (Option.some.inj hRun)
      exact .refl
  · obtain ⟨-, rfl⟩ := Prod.mk.inj (Option.some.inj hRun)
    exact .refl

theorem Tm.drop_free (tm : Tm) (v : Nat) : ((tm.drop v).tx v).active = false := by
  rw [Tm.drop_tx, if_pos (Or.inl rfl)]
  rfl

theorem acts_allocSlot : Op.Keeps (Acts allow) allocSlot := by
  intro tm r tm' hRun
  rcases allocSlot_cases tm with ⟨k, -, hFree, hIs⟩ | ⟨hFull, ⟨v, hVictim, hIs⟩ | ⟨-, hIs⟩⟩ <;>
    rw [hIs] at hRun <;> obtain ⟨-, rfl⟩ := Prod.mk.inj (Option.some.inj hRun)
  · exact .single (.clear k (Bool.eq_false_iff.mpr hFree))
  · have hOwn : tm.ChildOf v v → allow.twice := fun h => by
      have hNone := evictable_parent hVictim.2.1
      rw [h.2.2] at hNone
      cases hNone
    exact .tail (.single (.drop v hVictim.1 (hFull v hVictim.1) hOwn)) (.clear v (tm.drop_free v))
  · exact .refl

/-- What is known of a slot that is being filled with a request received. -/
def Tm.Blank (j : Nat) (tm : Tm) : Prop :=
  tm.Free j ∧ (tm.tx j).timer.type = .NONE ∧ (tm.tx j).uas_owner = none ∧ (tm.tx j).Named

theorem allocSlot_blank {tm tm' : Tm} {i : Nat} (hOk : tm.UasOk)
    (hRun : allocSlot.run tm = some (.ok i, tm')) : tm'.Blank i := by
  have hLater := (show Acts {} tm tm' from acts_allocSlot tm _ tm' hRun).moves.uasOk hOk
  rcases allocSlot_cases tm with ⟨k, hk, -, hIs⟩ | ⟨-, ⟨v, hVictim, hIs⟩ | ⟨-, hIs⟩⟩ <;> rw [hIs] at hRun
  · obtain ⟨hi, rfl⟩ := Prod.mk.inj (Option.some.inj hRun)
    obtain rfl := Except.ok.inj hi
    refine ⟨⟨⟨hLater, by rw [Tm.set_same]; rfl⟩, by rw [Tm.set_same]; rfl, hk⟩, ?_⟩
    rw [Tm.set_same]
    exact ⟨rfl, rfl, Txi.reset_named _⟩
  · obtain ⟨hi, rfl⟩ := Prod.mk.inj (Option.some.inj hRun)
    obtain rfl := Except.ok.inj hi
    refine ⟨⟨⟨hLater, by rw [Tm.set_same]; rfl⟩, by rw [Tm.set_same]; rfl, ?_⟩, ?_⟩
    · exact Nat.lt_of_lt_of_eq hVictim.1 (tm.drop_frame v).1.symm
    · rw [Tm.set_same]
      exact ⟨rfl, rfl, Txi.reset_named _⟩
  · cases hRun

theorem allocSlot_free {tm tm' : Tm} {i : Nat} (hOk : tm.UasOk)
    (hRun : allocSlot.run tm = some (.ok i, tm')) : tm'.Free i := (allocSlot_blank hOk hRun).1

theorem acts_filling {α : Type} {j : Nat} {x : Tm → TxM α}
    (hx : ∀ tm, Op.Keeps (Txi.SameLife ⟨True, True⟩) (x tm)) :
    Op.KeepsFrom (Tm.Free j) (Acts allow) (filling j x) := by
  intro tm r tm' hFree hRun
  obtain ⟨tp, hPart, rfl⟩ := onSlot_some hRun
  simp only [Op.run, Op.cleanup] at hPart
  split at hPart
  · cases hPart
  · rename_i e tp₁ hFirst
    obtain ⟨-, rfl⟩ := Prod.mk.inj (Option.some.inj hPart)
    have hLife := hx tm _ _ _ hFirst
    have hCleared : Act allow (tm.set j tp₁) ((tm.set j tp₁).set j ((tm.set j tp₁).tx j).reset) :=
      .clear j (by rw [Tm.set_same]; exact hLife.life.active.trans hFree.2.1)
    rw [Tm.set_same, Tm.set_set] at hCleared
    exact .tail (.single (.fill j tp₁ hFree.1.2 hFree.2.1 hLife)) hCleared
  · rename_i a tp₁ hFirst
    obtain ⟨-, rfl⟩ := Prod.mk.inj (Option.some.inj hPart)
    exact .single (.fill j tp₁ hFree.1.2 hFree.2.1 (hx tm _ _ _ hFirst))

theorem filling_free {α : Type} {j : Nat} {x : Tm → TxM α} {tm tm' : Tm} {a : α}
    (hx : ∀ tm, Op.Keeps (Txi.SameLife ⟨True, True⟩) (x tm)) (hFree : tm.Free j)
    (hRun : (filling j x).run tm = some (.ok a, tm')) : tm'.Free j := by
  have hActs : Acts {} tm tm' := acts_filling hx tm _ _ hFree hRun
  obtain ⟨tp, hPart, rfl⟩ := onSlot_ok.mp hRun
  have hLife := hx tm _ _ _ (Op.cleanup_ok.mp hPart)
  exact ⟨hActs.uac hFree.1, by rw [Tm.set_same]; exact hLife.life.active.trans hFree.2.1, hFree.2.2⟩

theorem Tm.activate_set (tm : Tm) (j created_for : Nat) (tp : Txi) :
    (tm.activate j created_for).set j tp = tm.enter j tp := by
  have hSame := Tm.set_set tm j { tm.tx j with active := true, born := tm.serial, created_for } tp
  simp only [Tm.set, Tm.mk.injEq] at hSame
  simp only [Tm.activate, Tm.enter, Tm.set, hSame]

/-- A slot that was activated and then worked on. -/
theorem enter_live {j created_for : Nat} {tm : Tm} {tp : Txi} (hFree : tm.Free j)
    (hRole : tp.role = .UAC) (hActive : tp.active = true) (hBorn : tp.born = tm.serial)
    (hKept : tp.abandoned = true → tp.callbacks = {})
    (hSlot : (tm.tx j).scratch.SameSlot tp.scratch) (hOwner : tp.uas_owner = (tm.tx j).uas_owner) :
    Acts allow tm ((tm.activate j created_for).set j tp) ∧
      ((tm.activate j created_for).set j tp).Live j := by
  rw [Tm.activate_set]
  have hEnter : Acts allow tm (tm.enter j tp) :=
    .single (.enter j tp hFree.2.1 hActive hBorn hRole hKept hSlot hFree.2.2 hOwner)
  refine ⟨hEnter, ⟨hEnter.uac hFree.1, ?_⟩⟩
  rw [Tm.enter, Tm.set_same]
  exact hActive

/-- What fails when its slot is already counted. -/
theorem acts_leaking {α : Type} {j : Nat} {x : TmM α}
    (hx : Op.KeepsFrom (Tm.Live j) (Tm.ActsOn allow j) x) :
    Op.KeepsFrom (Tm.Live j) (Acts allow) (leaking j x) := by
  intro tm r tm' hLive hRun
  simp only [leaking, Op.run, Op.cleanup] at hRun
  split at hRun
  · cases hRun
  · rename_i e tm₁ hFirst
    obtain ⟨-, rfl⟩ := Prod.mk.inj (Option.some.inj hRun)
    have hOn := hx tm _ _ hLive hFirst
    exact .tail hOn.acts (.leak j (hOn.life.life.active.trans hLive.2))
  · rename_i a tm₁ hFirst
    obtain ⟨-, rfl⟩ := Prod.mk.inj (Option.some.inj hRun)
    exact (hx tm _ _ hLive hFirst).acts

theorem acts_uncounting {α : Type} {j : Nat} {x : TmM α}
    (hx : Op.KeepsFrom (Tm.Live j) (Tm.ActsOn allow j) x) :
    Op.KeepsFrom (Tm.Live j) (Acts allow) (Op.cleanup (Tm.uncount j) x) := by
  intro tm r tm' hLive hRun
  simp only [Op.run, Op.cleanup] at hRun
  split at hRun
  · cases hRun
  · rename_i e tm₁ hFirst
    obtain ⟨-, rfl⟩ := Prod.mk.inj (Option.some.inj hRun)
    have hOn := hx tm _ _ hLive hFirst
    exact .tail hOn.acts (.uncount j (hOn.life.life.active.trans hLive.2))
  · rename_i a tm₁ hFirst
    obtain ⟨-, rfl⟩ := Prod.mk.inj (Option.some.inj hRun)
    exact (hx tm _ _ hLive hFirst).acts

/-! ## Client transactions -/

theorem activateUacSlot_live {i : Nat} {state : TxState} {cseq : UInt32} {target local_ : Addr}
    {callbacks : UacCallbacks} {timers : TimerPolicy} {tm tm' : Tm} {r : Except TmError Unit}
    (hFree : tm.Free i)
    (hRun : (activateUacSlot i state cseq target local_ callbacks timers).run tm = some (r, tm')) :
    Acts allow tm tm' ∧ tm'.Live i := by
  rw [activateUacSlot, Op.run_bind, Op.run_modify, Op.andThen_ok] at hRun
  obtain ⟨tp, hPart, rfl⟩ := onSlot_some hRun
  obtain ⟨-, rfl⟩ := Prod.mk.inj (Option.some.inj hPart)
  refine enter_live hFree rfl ?_ ?_ (fun h => by cases h) ?_ ?_ <;> rw [Tm.activate, Tm.set_same]
  · rfl
  · rfl
  · rfl
  · rfl

theorem activateUacSlot_is_live {i : Nat} {state : TxState} {cseq : UInt32} {target local_ : Addr}
    {callbacks : UacCallbacks} {timers : TimerPolicy} {tm tm' : Tm} {r : Except TmError Unit}
    (hFree : tm.Free i)
    (hRun : (activateUacSlot i state cseq target local_ callbacks timers).run tm = some (r, tm')) :
    tm'.Live i :=
  have hBoth : Acts {} tm tm' ∧ tm'.Live i := activateUacSlot_live hFree hRun
  hBoth.2

theorem acts_lookupUacMethod {R : Tm → Tm → Prop} [IsPreorder Tm R] (method_type : UInt8)
    (in_dialog : Bool) : Op.Keeps R (lookupUacMethod method_type in_dialog) :=
  .bind (.demand _) fun _ => .bind (.require _ _) fun _ => .bind (.assert _) fun _ => .pure _

theorem actsOn_buildRequest (i : Nat) (bp : BuildRequestParams) :
    Op.KeepsFrom (Tm.Live i) (Tm.ActsOn allow i) (onSlot i fun tm => buildRequest tm i bp) :=
  (actsOn_work fun tm => (life_quiet (quiet_buildRequest tm i bp)).from).mono fun _ h => h.1

theorem acts_newUacTr (tpp : NewUacTrParams) :
    Op.KeepsFrom Tm.UasOk (Acts allow) (newUacTr tpp) := by
  refine .bind (acts_lookupUacMethod _ _).from fun mdp => ?_
  refine .seq (fun i => Tm.Free i) acts_allocSlot.from (fun _ _ _ => allocSlot_free) fun i => ?_
  refine .seq (fun _ => Tm.Free i) (acts_filling fun _ => life_quiet (quiet_fillUacTr _ _ _ _))
    (fun _ _ _ => filling_free fun _ => life_quiet (quiet_fillUacTr _ _ _ _)) fun addrs => ?_
  refine .seq (fun _ => Tm.Live i) (fun _ _ _ hFree hRun => (activateUacSlot_live hFree hRun).1)
    (fun _ _ _ hFree hRun => activateUacSlot_is_live hFree hRun) fun _ => ?_
  exact .seq (fun _ _ => True) (acts_leaking (actsOn_buildRequest i _)) (fun _ _ _ _ _ => trivial)
    fun _ => (Op.Keeps.pure _).from

theorem acts_newInDialogTransaction (tpp : NewInDialogParams) :
    Op.KeepsFrom Tm.UasOk (Acts allow) (newInDialogTransaction tpp) := by
  refine .bind (Op.Keeps.assert _).from fun _ => .bind (Op.Keeps.require _ _).from fun _ => ?_
  refine .bind (acts_lookupUacMethod _ _).from fun mdp => ?_
  refine .seq (fun i => Tm.Free i) acts_allocSlot.from (fun _ _ _ => allocSlot_free) fun i => ?_
  refine .seq (fun _ => Tm.Free i) (.failWith (acts_filling fun _ => life_quiet (quiet_fillInDialog _ _ _)) _)
    (fun _ _ _ hFree hRun =>
      filling_free (fun _ => life_quiet (quiet_fillInDialog _ _ _)) hFree (Op.failWith_ok.mp hRun)) fun addrs => ?_
  refine .seq (fun _ => Tm.Live i) (fun _ _ _ hFree hRun => (activateUacSlot_live hFree hRun).1)
    (fun _ _ _ hFree hRun => activateUacSlot_is_live hFree hRun) fun _ => ?_
  refine .seq (fun _ _ => True) (acts_leaking (.failWith ?_ _)) (fun _ _ _ _ _ => trivial)
    fun _ => (Op.Keeps.pure _).from
  exact (actsOn_work fun tm => (life_quiet (quiet_prepareIds tm i)).from).mono fun _ h => h.1

/-! ## ACK and CANCEL -/

theorem cloneRest_life {m : Mem} {srcp tp tp' : Txi} {parent_index : Nat} {method : Method}
    {r : Except TmError Unit} (hRun : (cloneRest m srcp parent_index method).run tp = some (r, tp')) :
    ({ tp with toCtl := Ctl.cloned srcp.toCtl parent_index method tp.toCtl } : Txi).SameLife
      ⟨True, True⟩ tp' := by
  rw [cloneRest, Op.run_bind, modCtl, Op.run_modify, Op.andThen_ok] at hRun
  refine Op.Keeps.bind (life_quiet (quiet_copyTargetAddr _ _)) (fun _ => ?_) _ _ _ hRun
  exact .bind (.modify fun _ => .of_any ⟨rfl, rfl, rfl, fun _ => rfl⟩ rfl rfl id) fun _ =>
    .bind (life_quiet (quiet_grows Heap.keeps_checkpoint _)) fun _ =>
      .modify fun _ => .of_any ⟨rfl, rfl, rfl, fun _ => rfl⟩ rfl rfl id

theorem cloneInto_live {child_index parent_index : Nat} {method : Method} {tm tm' : Tm}
    {r : Except TmError Unit} (hFree : tm.Free child_index)
    (hRun : (cloneInto child_index parent_index method).run tm = some (r, tm')) :
    Acts allow tm tm' ∧ (r.toOption.isSome → tm'.Live child_index) := by
  rw [cloneInto, Op.run_bind, Op.run_get, Op.andThen_ok] at hRun
  simp only [Op.run_bind] at hRun
  cases hFill : (filling child_index fun tm' => cloneCache tm'.mem (tm.tx parent_index) method).run tm with
  | none =>
    rw [hFill] at hRun
    cases hRun
  | some out =>
    obtain ⟨r₁, tm₁⟩ := out
    have hActs : Acts allow tm tm₁ := acts_filling (fun _ => life_quiet (quiet_cloneCache _ _ _)) _ _ _ hFree hFill
    rw [hFill] at hRun
    cases r₁ with
    | error e =>
      obtain ⟨rfl, rfl⟩ := Prod.mk.inj (Option.some.inj hRun)
      exact ⟨hActs, fun h => by cases h⟩
    | ok u =>
      have hFree₁ := filling_free (fun _ => life_quiet (quiet_cloneCache _ _ _)) hFree hFill
      rw [Op.andThen_ok, Op.run_modify, Op.andThen_ok] at hRun
      have hEnter : ∀ {r₂ : Except TmError Unit} {tp : Txi},
          (cloneRest (tm₁.activate child_index (tm.tx parent_index).born).mem (tm.tx parent_index)
            parent_index method).run
            ((tm₁.activate child_index (tm.tx parent_index).born).tx child_index) = some (r₂, tp) →
          Acts allow tm₁ ((tm₁.activate child_index (tm.tx parent_index).born).set child_index tp) ∧
            ((tm₁.activate child_index (tm.tx parent_index).born).set child_index tp).Live
              child_index := by
        intro r₂ tp hPart
        have hLife := cloneRest_life hPart
        have hIn : ((tm₁.activate child_index (tm.tx parent_index).born).tx child_index).active = true := by
          rw [Tm.activate, Tm.set_same]
        refine enter_live hFree₁ hLife.life.role (hLife.life.active.trans hIn)
          (hLife.life.born.trans ?_) (fun hAbandoned => ?_) (Eq.trans hLife.slot ?_)
          ((hLife.life.client rfl).trans ?_)
        · rw [Tm.activate, Tm.set_same]
          rfl
        · rcases hLife.callbacks hIn with ⟨-, hBack⟩ | hNone
          · exact absurd (hBack hAbandoned) (by simp [Ctl.cloned])
          · exact hNone
        · rw [Tm.activate, Tm.set_same]
        · rw [Tm.activate, Tm.set_same]
          rfl
      simp only [leaking, Op.run, Op.cleanup] at hRun
      split at hRun
      · cases hRun
      · rename_i e tm₂ hFirst
        obtain ⟨rfl, rfl⟩ := Prod.mk.inj (Option.some.inj hRun)
        obtain ⟨tp, hPart, rfl⟩ := onSlot_some hFirst
        obtain ⟨hIn, hLive⟩ := hEnter hPart
        exact ⟨.tail (.trans hActs hIn) (.leak child_index hLive.2), fun hOk => by cases hOk⟩
      · rename_i u tm₂ hFirst
        obtain ⟨rfl, rfl⟩ := Prod.mk.inj (Option.some.inj hRun)
        obtain ⟨tp, hPart, rfl⟩ := onSlot_some hFirst
        obtain ⟨hIn, hLive⟩ := hEnter hPart
        exact ⟨.trans hActs hIn, fun _ => hLive⟩

theorem cloneUacInvite_live {parent_index c : Nat} {method : Method} {tm tm' : Tm} (hOk : tm.UasOk)
    (hRun : (cloneUacInvite parent_index method).run tm = some (.ok c, tm')) : tm'.Live c := by
  obtain ⟨i, tm₁, hAlloc, hRun⟩ := Op.bind_ok.mp hRun
  obtain ⟨u, tm₂, hInto, hRun⟩ := Op.bind_ok.mp hRun
  obtain ⟨rfl, rfl⟩ := Op.pure_ok.mp hRun
  have hInto : Acts {} _ _ ∧ _ := cloneInto_live (allocSlot_free hOk hAlloc) hInto
  exact hInto.2 rfl

theorem acts_cloneUacInvite (parent_index : Nat) (method : Method) :
    Op.KeepsFrom Tm.UasOk (Acts allow) (cloneUacInvite parent_index method) := by
  refine .seq (fun i => Tm.Free i) acts_allocSlot.from (fun _ _ _ => allocSlot_free) fun i => ?_
  exact .seq (fun _ _ => True) (fun _ _ _ hFree hRun => (cloneInto_live hFree hRun).1)
    (fun _ _ _ _ _ => trivial) fun _ => (Op.Keeps.pure _).from

theorem acts_sendCancel (parent_index : Nat) :
    Op.KeepsFrom (Tm.Uac parent_index) (Acts allow) (sendCancel parent_index) := by
  refine .seq (fun c tm => tm.Uac parent_index ∧ tm.Live c)
    ((acts_cloneUacInvite _ _).mono fun _ h => h.1) (fun tm c tm' hUac hRun => ?_) fun c => ?_
  · have hClone : Acts {} tm tm' := acts_cloneUacInvite _ _ _ _ _ hUac.1 hRun
    exact ⟨hClone.uac hUac, cloneUacInvite_live hUac.1 hRun⟩
  refine .seq (fun _ tm => tm.Uac parent_index ∧ tm.Live c)
    (Op.Keeps.from (acts_modCtl fun c => ⟨c.kept_silenced, rfl, rfl⟩)) (fun tm _ tm' hBoth hRun => ?_)
    fun _ => ?_
  · have hOn : Tm.ActsOn {} c tm tm' := actsOn_work
      (fun _ => Op.Keeps.from (life_modCtl fun c => by exact ⟨⟨rfl, rfl, rfl, fun _ => rfl⟩, id, id, id, Or.inr rfl⟩))
      _ _ _ hBoth.2.1 hRun
    exact ⟨hOn.acts.uac hBoth.1, Op.Stable.stays _ _ hOn hBoth.2⟩
  refine .seq (fun _ tm => tm.Uac parent_index) ((acts_uncounting ?_).mono fun _ h => h.2)
    (fun tm _ tm' hBoth hRun => ?_) fun _ => ?_
  · exact .failWith (actsOn_buildRequest c _) _
  · have hBuilt : Acts {} tm tm' :=
      acts_uncounting (.failWith (actsOn_buildRequest c _) _) _ _ _ hBoth.2 hRun
    exact hBuilt.uac hBoth.1
  exact .bind (acts_work fun _ => Op.Keeps.from (life_modCtl fun _ => Ctl.works_core rfl)) fun _ =>
    Op.Keeps.from (acts_modCtl fun _ => Ctl.rests_core rfl rfl)

theorem acts_uacStartCancel (parent_index : Nat) :
    Op.KeepsFrom (Tm.Uac parent_index) (Acts allow) (uacStartCancel parent_index) := by
  refine .bind Op.Keeps.get.from fun tm => .bind (Op.Keeps.demand _).from fun iv => ?_
  refine .ite (fun _ => (Op.Keeps.pure _).from) fun _ => .ite (fun _ => ?_) fun _ => acts_sendCancel _
  exact Op.Keeps.from (acts_modCtl fun _ => Ctl.rests_core rfl rfl)

theorem life_uacFinishAbandoned : Op.Keeps (Txi.SameLife undone) uacFinishAbandoned :=
  .bind (life_modCtl fun _ => Ctl.works_ended ⟨rfl, rfl, rfl, fun _ => rfl⟩ rfl rfl rfl rfl) fun _ =>
    life_releaseOutbound

theorem acts_startCancelOrFinish (index : Nat) :
    Op.KeepsFrom (Tm.Uac index) (Acts allow) (startCancelOrFinish index) := by
  refine .bind (.attempt (acts_uacStartCancel index)) fun r => ?_
  cases r with
  | ok u => exact (Op.Keeps.pure _).from
  | error e => exact acts_work fun _ => life_uacFinishAbandoned.from

theorem life_abandon : Op.Keeps (Txi.SameLife undone) (modCtl Ctl.abandon) :=
  life_modCtl fun _ => ⟨⟨rfl, rfl, rfl, fun _ => rfl⟩, id, id, id, Or.inr rfl⟩

theorem acts_uacAbandon (index : Nat) :
    Op.KeepsFrom (Tm.Uac index) (Acts allow) (uacAbandon index) := by
  refine .bind Op.Keeps.get.from fun tm => .bind (Op.Keeps.assert _).from fun _ => ?_
  refine .bind (acts_work fun _ => life_abandon.from) fun _ => ?_
  exact .ite (fun _ => acts_work fun _ => life_uacFinishAbandoned.from) fun _ =>
    acts_startCancelOrFinish index

theorem life_uacArmCleanup (now : UInt64) : Op.Keeps (Txi.SameLife undone) (uacArmCleanup now) :=
  life_setCtl fun _ _ _ => Ctl.works_armCleanup

/-! ## Responses -/

theorem keeps_onLocalHeap {σ α : Type} {R : σ → σ → Prop} [IsPreorder σ R] (len : Nat)
    (x : ParamsM α) : Op.Keeps R (onLocalHeap len x) := by
  intro s r s' hRun
  simp only [Op.run, onLocalHeap, Option.map_eq_some_iff] at hRun
  obtain ⟨out, -, hIs⟩ := hRun
  obtain ⟨-, rfl⟩ := Prod.mk.inj hIs
  exact Std.Refl.refl _

theorem acts_queueBye (index ack_index bye_index : Nat) :
    Op.Keeps (Acts allow) (Op.modify (ε := TmError) (Tm.queueBye index ack_index bye_index)) := by
  intro tm r tm' hRun
  obtain ⟨-, rfl⟩ := Prod.mk.inj (Option.some.inj hRun)
  have hBye : Act allow tm (tm.set bye_index { tm.tx bye_index with
      next_send_at_ms := TIME_NONE, parent_index := some index, created_for := (tm.tx index).born }) :=
    .stay bye_index _ (Txi.lasts_ctl (Ctl.rests_core rfl rfl))
  have hAck : ∀ tm₁ : Tm, Act allow tm₁
      (tm₁.set ack_index { tm₁.tx ack_index with child_index := some bye_index }) :=
    fun tm₁ => .stay ack_index _ (Txi.lasts_ctl (Ctl.rests_core rfl rfl))
  exact .tail (.single hBye) (hAck _)

theorem acts_abandonedUac (index : Nat) (msg : Msg) (sclass : Nat) :
    Op.KeepsFrom Tm.UasOk (Acts allow) (abandonedUac index msg sclass) := by
  refine .bind Op.Keeps.get.from fun tm => .bind (Op.Keeps.demand _).from fun iv => ?_
  refine .ite (fun _ => (Op.Keeps.pure _).from) fun _ => ?_
  refine .bind (keeps_onLocalHeap _ _).from fun dialog => ?_
  refine .bind (acts_newInDialogTransaction _) fun bye_index => .bind Op.Keeps.get.from fun tm => ?_
  refine .bind (Op.Keeps.demand _).from fun ack_index => .bind (acts_queueBye _ _ _).from fun _ => ?_
  exact Op.Keeps.from (acts_modCtl fun _ => Ctl.rests_core rfl rfl)

theorem acts_ackOf (index : Nat) : Op.KeepsFrom Tm.UasOk (Acts allow) (ackOf index) := by
  refine .bind Op.Keeps.get.from fun tm => ?_
  cases (tm.tx index).child_index with
  | none =>
    exact .bind (acts_cloneUacInvite _ _) fun c =>
      .bind (Op.Keeps.from (acts_modCtl fun _ => Ctl.rests_core rfl rfl)) fun _ => (Op.Keeps.pure _).from
  | some c => exact .bind (Op.Keeps.assert _).from fun _ => (Op.Keeps.pure _).from

/-- The ACK of an INVITE is a client's. -/
theorem ackOf_uac {index c : Nat} {tm tm' : Tm} (hOk : tm.UasOk)
    (hRun : (ackOf index).run tm = some (.ok c, tm')) : tm'.Uac c := by
  rw [ackOf, Op.run_bind, Op.run_get, Op.andThen_ok] at hRun
  cases hChild : (tm.tx index).child_index with
  | none =>
    simp only [hChild] at hRun
    obtain ⟨i, tm₁, hClone, hRun⟩ := Op.bind_ok.mp hRun
    obtain ⟨u, tm₂, hLink, hRun⟩ := Op.bind_ok.mp hRun
    obtain ⟨rfl, rfl⟩ := Op.pure_ok.mp hRun
    have hLinked : Acts {} tm₁ tm₂ :=
      acts_modCtl (j := index) (fun c => by exact Ctl.rests_core rfl rfl) _ _ _ hLink
    exact hLinked.uac (cloneUacInvite_live hOk hClone).1
  | some i =>
    simp only [hChild] at hRun
    obtain ⟨u, tm₁, hIs, hRun⟩ := Op.bind_ok.mp hRun
    obtain ⟨⟨-, hAck⟩, rfl⟩ := Op.assert_ok.mp hIs
    obtain ⟨rfl, rfl⟩ := Op.pure_ok.mp hRun
    refine ⟨hOk, ?_⟩
    cases hRole : (tm.tx i).role with
    | UAC => rfl
    | UAS => exact absurd (beq_iff_eq.mp hAck) (hOk i hRole).method

theorem acts_prepareAck (index ack_index : Nat) (msg : Msg) (sclass : Nat) :
    Op.KeepsFrom (Tm.Uac ack_index) (Acts allow) (prepareAck index ack_index msg sclass) := by
  refine .bind Op.Keeps.get.from fun tm => .ite (fun _ => (Op.Keeps.pure _).from) fun _ => ?_
  refine .bind (acts_work fun tm => Op.Keeps.from ?_) fun _ => .bind (acts_work fun _ => Op.Keeps.from ?_)
    fun _ => .failWith (acts_work fun tm => (life_quiet (quiet_buildRequest tm ack_index {})).from) _
  · exact life_quiet (.ite (fun _ => quiet_applyUac2xxAckDialog _ _ _) fun _ => quiet_applyNon2xxAck _ _ _)
  · exact .bind (life_quiet (quiet_grows Heap.keeps_checkpoint _)) fun _ => .modify fun _ => .of_ctl rfl rfl

theorem acts_uacAckFinal (index : Nat) (msg : Msg) (sclass : Nat) (now : UInt64) :
    Op.KeepsFrom Tm.UasOk (Acts allow) (uacAckFinal index msg sclass now) := by
  refine .seq (fun c => Tm.Uac c) (acts_ackOf index) (fun _ _ _ => ackOf_uac) fun c => ?_
  refine .bind (acts_prepareAck index c msg sclass) fun _ => .bind Op.Keeps.get.from fun tm => ?_
  refine .bind (.ite (fun _ => (acts_abandonedUac _ _ _).mono fun _ h => h.1)
    fun _ => (Op.Keeps.pure _).from) fun _ => ?_
  exact .bind (Op.Keeps.from (acts_modCtl fun _ => Ctl.rests_core rfl rfl)) fun _ =>
    Op.Keeps.from (acts_modCtl fun c => ⟨c.kept_reported, rfl, rfl⟩)

/-- A settled INVITE whose final response was never reported. -/
def Tm.Unreported (i : Nat) (tm : Tm) : Prop :=
  (tm.tx i).isInvite ∧ (tm.tx i).toCtl.Settled ∧ (tm.tx i).final_reported = false

/-- What is known of a client transaction and a response to it. -/
def Tm.Hears (allow : Allow) (code : StatusCode) (i : Nat) (tm : Tm) : Prop :=
  tm.Uac i ∧ (code.1 / 100 = 1 → tm.Unreported i → allow.late i)

theorem life_provisional {now : UInt64} {code : Nat} {invite_expires : UInt32} :
    Op.KeepsFrom (fun tp : Txi => tp.toCtl.Settled → undone.late) (Txi.SameLife undone)
      (Op.modify (ε := TmError) fun tp => { tp with
        toCtl := (tp.toCtl.responded now code).provisional invite_expires, raw := Str.null }) := by
  intro tp r tp' hSettled hRun
  obtain ⟨-, rfl⟩ := Prod.mk.inj (Option.some.inj hRun)
  refine ⟨⟨rfl, rfl, rfl, fun _ => rfl⟩, rfl, fun _ => .same rfl, ?_, Or.inr ⟨id, id⟩⟩
  by_cases hDone : tp.toCtl.Settled
  · exact Or.inr (Or.inl (hSettled hDone))
  · exact Or.inr (Or.inr fun h => absurd h hDone)

theorem acts_uacResponded (i : Nat) (now : UInt64) (msg : Msg) (code : StatusCode) :
    Op.KeepsFrom (Tm.Hears allow code i) (Acts allow) (uacResponded i now msg code) := by
  refine .getBind fun tm hHears => ?_
  have hUac : ∀ s, s = tm → s.Uac i := fun s hs => hs ▸ hHears.1
  refine .ite (fun hInvite => .ite (fun _ => (Op.Keeps.pure _).from) fun hNew => ?_)
    fun _ => .mono (P := Tm.Uac i) (.ite (fun _ => ?_) fun _ => .ite (fun _ => ?_) fun _ => ?_) hUac
  · refine .seq (fun _ => Tm.Uac i) ?_ ?_ fun _ => ?_
    · intro s r s' hs hRun
      subst hs
      obtain ⟨tp, hPart, rfl⟩ := onSlot_some hRun
      refine .single (.work i tp hHears.1.2 (life_provisional _ _ _ (fun hSettled => ?_) hPart))
      exact hHears.2 hInvite.2 ⟨hInvite.1, hSettled, by simpa using hNew⟩
    · intro s u s' hs hRun
      subst hs
      obtain ⟨tp, hPart, rfl⟩ := onSlot_ok.mp hRun
      have hLife : (s.tx i).SameLife ⟨True, True⟩ tp := life_provisional _ _ _ (fun _ => trivial) hPart
      have hAct : Act { renew := fun _ => True } s (s.set i tp) :=
        .work i tp hHears.1.2 ⟨hLife.life, hLife.slot, hLife.callbacks, Or.inl trivial, Or.inl trivial⟩
      exact Acts.uac (.single hAct) hHears.1
    · refine .bind (Op.Keeps.demand _).from fun iv => .bind (.ite (fun _ => ?_)
        fun _ => (Op.Keeps.pure _).from) fun _ => (Op.Keeps.pure _).from
      exact .bind (acts_startCancelOrFinish i) fun _ => acts_work fun _ => (life_uacArmCleanup now).from
  · refine .bind (acts_work fun _ => Op.Keeps.from (.bind (life_setCtl fun p c c' h => ?_) fun _ =>
      .modify fun _ => .of_ctl rfl rfl)) fun _ =>
        .bind ((acts_uacAckFinal _ _ _ _).mono fun _ h => h.1) fun _ => (Op.Keeps.pure _).from
    have hHeard : c.Works (c.responded now code.1) :=
      ⟨⟨rfl, rfl, rfl, fun _ => rfl⟩, Ctl.staysDone_same rfl rfl rfl rfl⟩
    exact IsTrans.trans _ _ _ hHeard (Ctl.works_inviteFinal h)
  · exact .bind (acts_work fun _ => Op.Keeps.from (.modify fun _ =>
      .of_done ⟨rfl, rfl, rfl, fun _ => rfl⟩ rfl (Ctl.staysDone_same rfl rfl rfl rfl))) fun _ =>
      (Op.Keeps.pure _).from
  · refine .bind (acts_work fun _ => Op.Keeps.from (.bind (life_setCtl fun p c c' h => ?_) fun _ =>
      .modify fun _ => .of_ctl rfl rfl)) fun _ => (Op.Keeps.pure _).from
    have hHeard : c.Works (c.responded now code.1) :=
      ⟨⟨rfl, rfl, rfl, fun _ => rfl⟩, Ctl.staysDone_same rfl rfl rfl rfl⟩
    exact IsTrans.trans _ _ _ hHeard (Ctl.works_noninviteFinal h)

/-- The client transaction a response is for. -/
def Tm.findUac (tm : Tm) (tid : Tid) : Option Nat :=
  (List.range tm.max_transactions).find? fun i =>
    (tm.tx i).active && (tm.tx i).role == .UAC && tidMatchesTx tm.mem tid (tm.tx i)

theorem Tm.findUac_uac {tm : Tm} {tid : Tid} {i : Nat} (h : tm.findUac tid = some i) :
    (tm.tx i).active = true ∧ (tm.tx i).role = .UAC := by
  have hIs := List.find?_some h
  rw [Bool.and_eq_true, Bool.and_eq_true, beq_iff_eq] at hIs
  exact hIs.1

theorem acts_handleIncomingResponse (now : UInt64) (msg : Msg) (code : StatusCode) (tid : Tid) :
    Op.KeepsFrom (fun tm => tm.UasOk ∧ ∀ i, tm.findUac tid = some i → code.1 / 100 = 1 →
      tm.Unreported i → allow.late i) (Acts allow) (handleIncomingResponse now msg code tid) := by
  refine .getBind fun tm hOk => .seq (fun i => Tm.Hears allow code i) (Op.Keeps.from (.orElse _ _))
    (fun s i t hs hRun => ?_) fun i => ?_
  · subst hs
    obtain ⟨hFound, rfl⟩ := Op.orElse_ok.mp hRun
    exact ⟨⟨hOk.1, (Tm.findUac_uac hFound).2⟩, hOk.2 i hFound⟩
  · exact .seq (fun _ _ => True) (acts_uacResponded i now msg code) (fun _ _ _ _ _ => trivial) fun _ =>
      Op.Keeps.from (.bind .get fun _ => .pure _)

theorem acts_releaseOutbound (i : Nat) (h : allow.stale) :
    Op.Keeps (Acts allow) (onSlot i fun _ => releaseOutbound) :=
  acts_stay fun _ tp r tp' hRun => lasts_releaseOutbound tp r tp' (Or.inl h) hRun

theorem acts_uacResponseDone (i : Nat) (code : StatusCode) :
    Op.KeepsFrom (fun tm => allow.stale ∨ tm.Uac i) (Acts allow) (uacResponseDone i code) := by
  intro tm r tm' hEither
  rcases hEither with hStale | hUac
  · refine Op.Keeps.bind .get (fun tp => .ite (fun _ => acts_releaseOutbound i hStale) fun _ => .pure _)
      tm r tm'
  · refine Op.KeepsFrom.bind (P := Tm.Uac i) Op.Keeps.get.from (fun tp => .ite (fun _ => ?_) fun _ =>
      (Op.Keeps.pure _).from) tm r tm' hUac
    exact acts_work fun _ => life_releaseOutbound.from

/-! ## Running -/

/-- The end of a child of whatever kind. -/
theorem lasts_terminate : Op.Keeps (Txi.Lasts allow) (do
    modCtl fun c =>
      { c.markTerminated.clearTimer.clearInviteTimeout with parent_index := none, child_index := none }
    releaseOutbound) := by
  intro tp r tp' hRun
  have hMark : Op.Keeps (Txi.Lasts allow) (modCtl fun c =>
      { c.markTerminated.clearTimer.clearInviteTimeout with
        parent_index := none, child_index := none }) :=
    lasts_modCtl fun _ =>
      ⟨Ctl.kept_ended ⟨rfl, rfl, rfl, fun _ => rfl⟩ rfl rfl rfl rfl rfl rfl rfl, rfl, rfl⟩
  refine Op.KeepsFrom.seq (P := fun _ => True) (fun _ tp => allow.stale ∨ tp.state = .TERMINATED) hMark.from
    (fun s _ t _ hFirst => ?_) (fun _ => lasts_releaseOutbound) tp r tp' trivial hRun
  obtain ⟨-, rfl⟩ := Prod.mk.inj (Option.some.inj hFirst)
  exact Or.inr rfl

theorem acts_txTerminateChild (fuel p : Nat) :
    Op.Keeps (Acts allow) (txTerminateChild fuel p) := by
  induction fuel generalizing p with
  | zero => exact .assert _
  | succ fuel ih =>
    refine .bind .get fun tm => ?_
    cases (tm.tx p).child_index with
    | none => exact .pure _
    | some c =>
      refine .bind (.assert _) fun _ => .bind (.ite (fun _ => .bind (ih c) fun _ => ?_)
        fun _ => .pure _) fun _ => ?_
      · exact acts_stay fun _ => lasts_terminate
      · exact acts_modCtl fun _ => Ctl.rests_core rfl rfl

theorem acts_uacExpireInvite (index : Nat) (now : UInt64) :
    Op.KeepsFrom (Tm.Uac index) (Acts allow) (uacExpireInvite index now) := by
  refine .bind Op.Keeps.get.from fun tm => .bind (Op.Keeps.demand _).from fun iv => ?_
  refine .ite (fun _ => ?_) fun _ => ?_
  · exact .bind (acts_uacAbandon index) fun _ =>
      .bind (acts_work fun _ => (life_uacArmCleanup now).from) fun _ => (Op.Keeps.pure _).from
  · exact .bind (acts_work fun _ => Op.Keeps.from (life_modCtl fun _ =>
      Ctl.works_ended ⟨rfl, rfl, rfl, fun _ => rfl⟩ rfl rfl rfl rfl)) fun _ => (Op.Keeps.pure _).from

theorem acts_uacTimerFired (index : Nat) :
    Op.Keeps (Acts allow) (uacTimerFired index) :=
  .bind (acts_modCtl fun _ =>
      ⟨Ctl.kept_ended ⟨rfl, rfl, rfl, fun _ => rfl⟩ rfl rfl rfl rfl rfl rfl rfl, rfl, rfl⟩) fun _ =>
    .bind .get fun _ => .bind (acts_txTerminateChild _ _) fun _ => .bind .get fun _ => .pure _

theorem acts_uacRun (index : Nat) (now : UInt64) :
    Op.KeepsFrom (Tm.Uac index) (Acts allow) (uacRun index now) := by
  refine .bind Op.Keeps.get.from fun tm => .ite (fun _ => (Op.Keeps.pure _).from) fun _ => ?_
  refine .bind (acts_work fun _ => (life_uacArmCleanup now).from) fun _ => .bind Op.Keeps.get.from
    fun tm => .ite (fun _ => acts_uacExpireInvite index now) fun _ =>
      .ite (fun _ => (acts_uacTimerFired index).from) fun _ => .ite (fun _ => (Op.Keeps.pure _).from)
        fun _ => .bind (.ite (fun _ => ?_) fun _ => (Op.Keeps.pure _).from) fun _ =>
          (Op.Keeps.pure _).from
  exact acts_work fun tm => (life_quiet (quiet_buildRequest tm index {})).from

theorem acts_uacTimedOut (index : Nat) (rest : TimeoutRest) :
    Op.KeepsFrom (fun tm => allow.stale ∨ tm.Uac index) (Acts allow) (uacTimedOut index rest) := by
  intro tm r tm' hEither
  rcases hEither with hStale | hUac
  · refine Op.Keeps.bind .get (fun tp => ?_) tm r tm'
    cases rest with
    | expired => exact .pure _
    | cleaned => exact acts_releaseOutbound index hStale
    | timer => exact .ite (fun _ => acts_releaseOutbound index hStale) fun _ => .pure _
  · refine Op.KeepsFrom.bind (P := Tm.Uac index) Op.Keeps.get.from (fun tp => ?_) tm r tm' hUac
    cases rest with
    | expired => exact (Op.Keeps.pure _).from
    | cleaned => exact acts_work fun _ => life_releaseOutbound.from
    | timer =>
      exact .ite (fun _ => acts_work fun _ => life_releaseOutbound.from) fun _ =>
        (Op.Keeps.pure _).from

theorem acts_armBye (index bye_index : Nat) (now : UInt64) :
    Op.Keeps (Acts allow) (Op.modify (ε := TmError) (Tm.armBye index bye_index now)) := by
  intro tm r tm' hRun
  obtain ⟨-, rfl⟩ := Prod.mk.inj (Option.some.inj hRun)
  have hBye : Act allow tm (tm.set bye_index { tm.tx bye_index with
      parent_index := none, next_send_at_ms := now }) :=
    .stay bye_index _ (Txi.lasts_ctl (Ctl.rests_core rfl rfl))
  have hAck : ∀ tm₁ : Tm, Act allow tm₁ (tm₁.set index { tm₁.tx index with child_index := none }) :=
    fun tm₁ => .stay index _ (Txi.lasts_ctl (Ctl.rests_core rfl rfl))
  exact .tail (.single hBye) (hAck _)

theorem acts_uacSent (index : Nat) (now : UInt64) :
    Op.KeepsFrom (Tm.Uac index) (Acts allow) (uacSent index now) := by
  refine .bind (acts_work fun _ => (life_setCtl fun _ _ _ => Ctl.works_uacSent).from) fun _ =>
    .bind Op.Keeps.get.from fun tm => ?_
  cases (tm.tx index).isAck <;> cases (tm.tx index).child_index
  · exact (Op.Keeps.pure _).from
  · exact (Op.Keeps.pure _).from
  · exact (Op.Keeps.pure _).from
  · exact .bind (acts_armBye _ _ _).from fun _ => (Op.Keeps.pure _).from

/-! ## Retries and cancellation -/

/-- Whether a slot's next request gets past the checks of `usipy_sip_tm_next_transaction`. -/
def Tm.MayRenew (index : Nat) (tm : Tm) : Prop :=
  (tm.tx index).active ∧ ¬ (tm.tx index).abandoned ∧
    (∀ c, (tm.tx index).child_index = some c → (tm.tx c).active ∧ (tm.tx c).isAck) ∧
    (tm.tx index).transitionAllowed

theorem nextAllowed_ok {index : Nat} {tm tm' : Tm} {u : Unit}
    (hRun : (nextAllowed index).run tm = some (.ok u, tm')) :
    tm = tm' ∧ (tm.tx index).active ∧ ¬ (tm.tx index).abandoned := by
  obtain ⟨_, _, hDone, hRun⟩ := Op.bind_ok.mp hRun
  obtain ⟨rfl, rfl⟩ := Op.get_ok.mp hDone
  obtain ⟨_, _, hDone, hRun⟩ := Op.bind_ok.mp hRun
  obtain ⟨-, rfl⟩ := Op.require_ok.mp hDone
  obtain ⟨_, _, hDone, hRun⟩ := Op.bind_ok.mp hRun
  obtain ⟨hActive, rfl⟩ := Op.require_ok.mp hDone
  obtain ⟨hAbandoned, rfl⟩ := Op.require_ok.mp hRun
  exact ⟨rfl, hActive, hAbandoned⟩

theorem detachAck_ok {index : Nat} {tm tm' : Tm} {u : Unit}
    (hRun : (detachAck index).run tm = some (.ok u, tm')) :
    (tm'.tx index).transitionAllowed = (tm.tx index).transitionAllowed ∧
      ∀ c, (tm.tx index).child_index = some c → (tm.tx c).active ∧ (tm.tx c).isAck := by
  rw [detachAck, Op.run_bind, Op.run_get, Op.andThen_ok] at hRun
  cases hChild : (tm.tx index).child_index with
  | none =>
    simp only [hChild] at hRun
    obtain ⟨-, rfl⟩ := Op.pure_ok.mp hRun
    exact ⟨rfl, fun c h => by cases h⟩
  | some c =>
    simp only [hChild] at hRun
    obtain ⟨_, _, hDone, hRun⟩ := Op.bind_ok.mp hRun
    obtain ⟨-, rfl⟩ := Op.assert_ok.mp hDone
    obtain ⟨_, _, hDone, hRun⟩ := Op.bind_ok.mp hRun
    obtain ⟨hAck, rfl⟩ := Op.require_ok.mp hDone
    obtain ⟨tp, hPart, rfl⟩ := onSlot_ok.mp hRun
    obtain ⟨-, rfl⟩ := Prod.mk.inj (Option.some.inj hPart)
    refine ⟨?_, fun c' h => by cases h; exact hAck⟩
    rw [Tm.set_same]
    rfl

theorem acts_detachAck (index : Nat) : Op.Keeps (Acts allow) (detachAck index) := by
  refine .bind .get fun tm => ?_
  cases (tm.tx index).child_index with
  | none => exact .pure _
  | some c =>
    exact .bind (.assert _) fun _ => .bind (.require _ _) fun _ =>
      acts_modCtl fun _ => Ctl.rests_core rfl rfl

theorem acts_nextTransaction (index : Nat) (payload : Option RequestPayload) (ehp : List ExtraHeader) :
    Op.KeepsFrom (fun tm => tm.UasOk ∧ (tm.MayRenew index → allow.renew index)) (Acts allow)
      (nextTransaction index payload ehp) := by
  have hAllowed : Op.Keeps (Acts allow) (nextAllowed index) :=
    .bind .get fun _ => .bind (.require _ _) fun _ => .bind (.require _ _) fun _ => .require _ _
  refine .seq (fun _ tm => tm.UasOk ∧ ((∀ c, (tm.tx index).child_index = some c →
    (tm.tx c).active ∧ (tm.tx c).isAck) ∧ (tm.tx index).transitionAllowed → allow.renew index))
    hAllowed.from (fun tm u tm' hOk hRun => ?_) fun _ => ?_
  · obtain ⟨rfl, hActive, hAbandoned⟩ := nextAllowed_ok hRun
    exact ⟨hOk.1, fun h => hOk.2 ⟨hActive, hAbandoned, h⟩⟩
  refine .seq (fun _ tm => tm.UasOk ∧ ((tm.tx index).transitionAllowed → allow.renew index))
    (acts_detachAck index).from (fun tm u tm' hOk hRun => ?_) fun _ => ?_
  · have hActs : Acts {} tm tm' := acts_detachAck index _ _ _ hRun
    obtain ⟨hSame, hAck⟩ := detachAck_ok hRun
    exact ⟨hActs.moves.uasOk hOk.1, fun h => hOk.2 ⟨hAck, hSame ▸ h⟩⟩
  refine .getBind fun tm hOk => .assertBind fun hRole => .requireBind fun hMay => ?_
  refine .mono (P := Tm.Uac index) (acts_work fun tm => Op.Keeps.from ?_)
    (fun s hs => ⟨hs ▸ hOk.1, hs ▸ hRole⟩)
  exact .bind (.modify fun _ =>
    ⟨⟨rfl, rfl, rfl, fun _ => rfl⟩, rfl, fun _ => .same rfl, Or.inl (hOk.2 hMay), Or.inl (hOk.2 hMay)⟩) fun _ =>
    .bind (life_quiet (quiet_prepareIds _ _)) fun _ => life_quiet (quiet_buildRequest _ _ _)

theorem acts_cancel (index : Nat) : Op.KeepsFrom Tm.UasOk (Acts allow) (cancel index) := by
  refine .getBind fun tm hOk => .requireBind fun _ => .requireBind fun _ => .assertBind fun hRole => ?_
  refine .mono (P := Tm.Uac index) (.bind (Op.Keeps.require _ _).from fun _ =>
    .bind (Op.Keeps.require _ _).from fun _ => .bind (Op.Keeps.demand _).from fun iv =>
      .bind (Op.Keeps.assert _).from fun _ => .bind (acts_work fun _ => (life_onInvite _).from)
        fun _ => ?_) (fun s hs => ⟨hs ▸ hOk, hs ▸ hRole⟩)
  exact .ite (fun _ => (Op.Keeps.pure _).from) fun _ => acts_uacAbandon index

theorem acts_setTimerPolicy (index : Nat) (policy : TimerPolicy) :
    Op.Keeps (Acts allow) (setTimerPolicy index policy) :=
  .bind .get fun _ => .bind (.require _ _) fun _ => .bind (.require _ _) fun _ =>
    acts_stay fun _ => .modify fun _ => {
      toKept := ⟨Std.Refl.refl _, Std.Refl.refl _, rfl, Std.Refl.refl _, Or.inr (Or.inr rfl)⟩
      peer := rfl
      answer := fun _ _ => ⟨rfl, Or.inr (Or.inr ⟨rfl, rfl⟩)⟩
      grounded := fun _ h => ⟨h.top, h.call_id, h.branch, h.from_tag, h.host, h.raw, h.target⟩
      hashed := fun _ _ h => ⟨h.to_tag, h.tagged, h.hashes⟩ }

/-! ## Server transactions coming into being -/

/-- The same control part on the same storage, with a request of the same method. -/
structure Txi.SameWork (tp tp' : Txi) : Prop where
  ctl : tp'.toCtl = tp.toCtl
  slot : tp.scratch.SameSlot tp'.scratch
  method : tp'.cache.method_type = tp.cache.method_type

instance : IsPreorder Txi Txi.SameWork where
  refl _ := ⟨rfl, rfl, rfl⟩
  trans _ _ _ h h' :=
    ⟨h'.ctl.trans h.ctl, Eq.trans h'.slot h.slot, h'.method.trans h.method⟩

theorem work_onScratch {α : Type} {x : HeapM α} (hx : Op.Keeps Heap.Grows x) (e : TmError) :
    Op.Keeps Txi.SameWork (onScratch e x) := by
  refine .failWith ?_ e
  intro tp r tp' hRun
  simp only [Op.run, Op.zoom] at hRun
  split at hRun
  · cases hRun
  · rename_i r₁ hp hPart
    obtain ⟨-, rfl⟩ := Prod.mk.inj (Option.some.inj hRun)
    exact ⟨rfl, (hx _ _ _ hPart).slot, rfl⟩

theorem work_modCache {f : Cache → Cache} (h : ∀ c : Cache, (f c).method_type = c.method_type) :
    Op.Keeps Txi.SameWork (modCache f) := .modify fun tp => ⟨rfl, rfl, h tp.cache⟩

theorem work_modUasCache (f : UasCache → UasCache) : Op.Keeps Txi.SameWork (modUasCache f) :=
  work_modCache fun _ => rfl

theorem work_uasCopyHdrs (m : Mem) (srcp : List MsgHdr) :
    Op.Keeps Txi.SameWork (uasCopyHdrs m srcp) := by
  cases srcp with
  | nil => exact .pure _
  | cons h hs =>
    exact .bind (work_onScratch (Heap.keeps_alloc _) _) fun _ =>
      work_onScratch (Heap.keeps_appendAll _ _) _

theorem work_uasCopyNameaddrWithoutParam (m : Mem) (nap : NameAddr) (skip : Bytes) :
    Op.Keeps Txi.SameWork (uasCopyNameaddrWithoutParam m nap skip) :=
  .bind .get fun _ => .bind (work_onScratch (Heap.keeps_build _ _) _) fun _ =>
    .bind (work_onScratch (Heap.keeps_alloc _) _) fun _ => .pure _

theorem work_uasCacheRequest (m : Mem) (reqp : Msg) (ruri : Str) (tid : Tid) :
    Op.Keeps Txi.SameWork (uasCacheRequest m reqp ruri tid) := by
  unfold uasCacheRequest
  refine .bind (.require _ _) fun _ => .bind (.assert _) fun _ => .bind (.demand _) fun _ => ?_
  refine .bind (.demand _) fun _ => .bind (.demand _) fun _ => .bind (.demand _) fun _ => ?_
  refine .bind (.demand _) fun _ => .bind (.orElse _ _) fun _ => ?_
  refine .bind (work_onScratch (Heap.keeps_append _ _) _) fun _ => .bind (work_modUasCache _) fun _ => ?_
  refine .bind (work_uasCopyNameaddrWithoutParam _ _ _) fun _ => .bind (work_modUasCache _) fun _ => ?_
  refine .bind (work_onScratch (Heap.keeps_append _ _) _) fun _ => .bind (work_modUasCache _) fun _ => ?_
  refine .bind (.orElse _ _) fun _ => .bind (work_modUasCache _) fun _ => ?_
  refine .bind (.orElse _ _) fun _ => .bind (work_modUasCache _) fun _ => ?_
  refine .bind (work_uasCopyHdrs _ _) fun _ => .bind (work_modUasCache _) fun _ => ?_
  refine .bind (.orElse _ _) fun _ => .bind (work_modCache fun _ => rfl) fun _ => ?_
  refine .bind (work_uasCopyHdrs _ _) fun _ => .bind (work_modUasCache _) fun _ => .bind ?_ fun _ =>
    .bind (work_modUasCache _) fun _ => .bind (.orElse _ _) fun _ => work_modCache fun _ => rfl
  split
  · exact work_onScratch (Heap.keeps_append _ _) _
  · exact .pure _

theorem work_callIdPolicy (policy : IdPolicy) (inp : IdPolicyIn) :
    Op.Keeps Txi.SameWork (callIdPolicy policy inp) := by
  intro tp r tp' hRun
  simp only [callIdPolicy, Op.run_bind, Op.run_get, Op.andThen_ok, Op.run_modify] at hRun
  have hAnswer : tp.SameWork { tp with
      scratch := (policy.cb tp.id_calls inp tp.scratch).2, id_calls := tp.id_calls + 1 } :=
    ⟨rfl, (policy.extends_heap _ _ _).slot, rfl⟩
  exact IsTrans.trans _ _ _ hAnswer (Op.Keeps.orElse _ _ _ _ _ hRun)

theorem work_uasPrepareLocalTag (tm : Tm) (tx_index : Nat) (cseq : UInt32) (method_type : Method) :
    Op.Keeps Txi.SameWork (uasPrepareLocalTag tm tx_index cseq method_type) := by
  refine .bind ?_ fun _ => work_modCache fun _ => rfl
  cases tm.id_policy with
  | none => exact work_onScratch (Heap.keeps_sprintf _) _
  | some policy =>
    exact .bind (work_callIdPolicy _ _) fun _ => .bind (.require _ _) fun _ => .pure _

theorem work_copyTargetAddr (m : Mem) (srcp : Addr) : Op.Keeps Txi.SameWork (copyTargetAddr m srcp) :=
  .bind (.ite (fun _ => .pure _) fun _ => work_onScratch (Heap.keeps_append _ _) _) fun _ => .pure _

theorem work_uasFormatLocalContactUri (m : Mem) (localp : Addr) :
    Op.Keeps Txi.SameWork (uasFormatLocalContactUri m localp) :=
  .bind (.bind .get fun _ => .pure _) fun _ => .bind (.orElse _ _) fun _ =>
    work_onScratch (Heap.keeps_sprintf _) _

/-- What follows the method in the filling of a slot. -/
theorem fillUasTr_work {tpp : NewUasTrParams} {method : Method} {ruri : Str} {tid : Tid} {i : Nat}
    {tm : Tm} {tp tp' : Txi} {r : Except TmError Unit}
    (hRun : (fillUasTr tpp method ruri tid i tm).run tp = some (r, tp')) :
    tp.SameLife ⟨True, True⟩ tp' ∧ tp'.cache.method_type = method ∧ tp'.timer = tp.timer ∧
      tp'.uas_owner = tp.uas_owner := by
  rw [fillUasTr, Op.run_bind, modCtl, Op.run_modify, Op.andThen_ok, Op.run_bind, modCache,
    Op.run_modify, Op.andThen_ok] at hRun
  have hRest : Op.Keeps Txi.SameWork (do
      let call_id ← onScratch .NOSPC (Heap.append tm.mem tid.call_id)
      modCache fun c => { c with call_id }
      uasCacheRequest tm.mem tpp.request ruri tid
      let local_contact_uri ← uasFormatLocalContactUri tm.mem (tpp.local_ tm)
      modUasCache fun u => { u with local_contact_uri }
      uasPrepareLocalTag tm i tid.cseq.val method
      let peer ← copyTargetAddr tm.mem (tpp.peer tm)
      Op.modify fun tp => { tp with peer }
      let local_ ← copyTargetAddr tm.mem (tpp.local_ tm)
      Op.modify fun tp => { tp with local_ }
      let cp ← onScratch .NOSPC Heap.checkpoint
      Op.modify fun tp => { tp with checkpoint := some cp }) := by
    refine .bind (work_onScratch (Heap.keeps_append _ _) _) fun _ => ?_
    refine .bind (work_modCache fun _ => rfl) fun _ => .bind (work_uasCacheRequest _ _ _ _) fun _ => ?_
    refine .bind (work_uasFormatLocalContactUri _ _) fun _ => .bind (work_modUasCache _) fun _ => ?_
    refine .bind (work_uasPrepareLocalTag _ _ _ _) fun _ => .bind (work_copyTargetAddr _ _) fun _ => ?_
    refine .bind (.modify fun _ => ⟨rfl, rfl, rfl⟩) fun _ => ?_
    refine .bind (work_copyTargetAddr _ _) fun _ => ?_
    refine .bind (.modify fun _ => ⟨rfl, rfl, rfl⟩) fun _ => ?_
    exact .bind (work_onScratch Heap.keeps_checkpoint _) fun _ =>
      .modify fun _ => ⟨rfl, rfl, rfl⟩
  have hWork := hRest _ _ _ hRun
  refine ⟨.of_any ⟨?_, ?_, ?_, fun _ => ?_⟩ hWork.slot ?_ ?_, hWork.method, ?_, ?_⟩ <;> rw [hWork.ctl]
  exact id

theorem life_fillUasTr (tpp : NewUasTrParams) (method : Method) (ruri : Str) (tid : Tid) (i : Nat)
    (tm : Tm) : Op.Keeps (Txi.SameLife ⟨True, True⟩) (fillUasTr tpp method ruri tid i tm) :=
  fun _ _ _ hRun => (fillUasTr_work hRun).1

/-- A slot activated for a request. -/
theorem activateUasSlot_enters {i : Nat} {tid : Tid} {timers : Tm → Option TimerPolicy} {tm tm' : Tm}
    {r : Except TmError Unit} (hFree : tm.Free i) (hMethod : (tm.tx i).cache.method_type ≠ .ACK)
    (hTimer : (tm.tx i).timer.type = .NONE) (hOwner : (tm.tx i).uas_owner = none)
    (hFilled : (tm.tx i).Filled tm) (hRun : (activateUasSlot i tid timers).run tm = some (r, tm')) :
    Enters tm tm' := by
  rw [activateUasSlot, Op.run_bind, Op.run_modify, Op.andThen_ok] at hRun
  obtain ⟨tp, hPart, rfl⟩ := onSlot_some hRun
  rw [Op.run_bind, Op.run_modify, Op.andThen_ok, Op.run_modify] at hPart
  obtain ⟨-, rfl⟩ := Prod.mk.inj (Option.some.inj hPart)
  rw [Tm.activate_set]
  have hHolds {s : Str} (h : (tm.tx i).scratch.Laid s) : (tm.tx i).scratch.Holds s := h.holds hFilled.base
  refine .mk i _ ?_ rfl ⟨?_, ?_, ?_, ?_, ?_⟩ ?_ ?_ hFree.2.1 hFree.2.2 ?_ fun hTags => ?_
  · simp only [Tm.activate, Ctl.uasActivated, Tm.set, if_true]
  · simp only [Tm.activate, Ctl.uasActivated, Tm.set, if_true]
  · simpa only [Tm.activate, Ctl.uasActivated, Tm.set, if_true] using hMethod
  · simp only [Tm.activate, Ctl.uasActivated, Tm.set, if_true]
  · simpa only [Tm.activate, Ctl.uasActivated, Tm.set, if_true] using hTimer
  · simp only [Tm.activate, Ctl.uasActivated, Tm.set, if_true]
    decide
  · simpa only [Tm.activate, Ctl.uasActivated, Tm.set, if_true] using hOwner
  · simp only [Heap.SameSlot, Tm.activate, Tm.set, if_true]
  · have hNamed := hFilled.named
    simp only [Tm.activate, Tm.set, if_true]
    exact ⟨Nat.le_of_eq hFilled.base, hHolds hNamed.call_id, hHolds hNamed.branch, hHolds hNamed.from_tag,
      hNamed.host.imp_right hHolds, Or.inl ⟨[], rfl⟩, rfl⟩
  · have hAck := hFilled.named.ack_hash
    simp only [Tm.activate, Tm.set, if_true]
    exact ⟨hHolds (hFilled.to_tag hTags), hFilled.tagged, Or.inr ⟨_, hAck, rfl⟩⟩

theorem Acts.to_moves {α : Type} {P : Tm → Prop} {x : TmM α} (hx : Op.KeepsFrom P (Acts allow) x) :
    Op.KeepsFrom P (Moves allow) x := hx.weaken fun _ _ => Acts.moves

theorem moves_newUasTr (tpp : NewUasTrParams) :
    Op.KeepsFrom Tm.UasOk (Moves allow) (newUasTr tpp) := by
  refine .getBind fun tm hOk => .mono (P := Tm.UasOk) ?_ fun s hs => hs ▸ hOk
  refine .bind (Op.Keeps.demand _).from fun line => ?_
  obtain ⟨method, ruri⟩ := line
  refine .requireBind fun hMethod => .bind (Op.Keeps.orElse _ _).from fun tid => ?_
  refine .bind (Op.Keeps.require _ _).from fun _ => ?_
  refine .seq (fun i => Tm.Blank i) (Acts.to_moves acts_allocSlot.from) (fun _ _ _ => allocSlot_blank)
    fun i => ?_
  refine .seq (fun _ tm => tm.Free i ∧ (tm.tx i).cache.method_type ≠ .ACK ∧
      (tm.tx i).timer.type = .NONE ∧ (tm.tx i).uas_owner = none ∧ (tm.tx i).Filled tm)
    ((Acts.to_moves (acts_filling fun _ => life_fillUasTr _ _ _ _ _ _)).mono fun _ h => h.1)
    (fun tm _ tm' hBlank hRun => ?_) fun _ => ?_
  · have hFree := filling_free (fun _ => life_fillUasTr _ _ _ _ _ _) hBlank.1 hRun
    obtain ⟨tp, hPart, rfl⟩ := onSlot_ok.mp hRun
    have hFill := Op.cleanup_ok.mp hPart
    obtain ⟨-, hSame, hTimer, hOwner⟩ := fillUasTr_work hFill
    obtain ⟨hFilled, -⟩ := fillUasTr_filled hBlank.2.2.2 hFill
    refine ⟨hFree, ?_⟩
    rw [Tm.set_same, hSame, hTimer, hOwner]
    exact ⟨hMethod.2, hBlank.2.1, hBlank.2.2.1, hFilled.named, hFilled.base, hFilled.tagged, hFilled.to_tag⟩
  · exact .seq (fun _ _ => True)
      (fun _ _ _ hNew hRun => .single (Or.inr (activateUasSlot_enters hNew.1 hNew.2.1 hNew.2.2.1
        hNew.2.2.2.1 hNew.2.2.2.2 hRun)))
      (fun _ _ _ _ _ => trivial) fun _ => (Op.Keeps.pure _).from

/-! ## Server transactions -/

theorem acts_stayFrom {α : Type} {P : Txi → Prop} {j : Nat} {x : Tm → TxM α}
    (hx : ∀ tm, Op.KeepsFrom P (Txi.Lasts allow) (x tm)) :
    Op.KeepsFrom (fun tm => P (tm.tx j)) (Acts allow) (onSlot j x) := by
  intro tm r tm' hP hRun
  obtain ⟨tp, hPart, rfl⟩ := onSlot_some hRun
  exact .single (.stay j tp (hx tm _ _ _ hP hPart))

theorem kept_uasStoreResponse (rpp : UasResponseParams) (tm : Tm) :
    Op.Keeps (Txi.Kept allow) (uasStoreResponse rpp tm) :=
  .bind .get fun _ => .bind (kept_rollbackTo _) fun _ => .bind (kept_onScratch (below_build _ _) _)
    fun _ => .modify fun _ =>
      ⟨Std.Refl.refl _, Std.Refl.refl _, rfl, Std.Refl.refl _, Or.inr (Or.inr rfl)⟩

theorem ctl_onScratch {α : Type} (x : HeapM α) (e : TmError) :
    Op.Keeps (fun tp tp' : Txi => tp.toCtl = tp'.toCtl) (onScratch e x) := by
  refine .failWith ?_ e
  intro tp r tp' hRun
  simp only [Op.run, Op.zoom] at hRun
  split at hRun
  · cases hRun
  · obtain ⟨-, rfl⟩ := Prod.mk.inj (Option.some.inj hRun)
    rfl

theorem ctl_uasStoreResponse (rpp : UasResponseParams) (tm : Tm) :
    Op.Keeps (fun tp tp' : Txi => tp.toCtl = tp'.toCtl) (uasStoreResponse rpp tm) := by
  have : IsPreorder Txi fun tp tp' : Txi => tp.toCtl = tp'.toCtl :=
    { refl := fun _ => rfl, trans := fun _ _ _ h h' => h.trans h' }
  refine .bind .get fun tp => .bind ?_ fun _ => .bind (ctl_onScratch _ _) fun _ => .modify fun _ => rfl
  cases tp.checkpoint with
  | none => exact .pure _
  | some cp => exact ctl_onScratch _ _

theorem uasMayAnswer_ok {index : Nat} {tm tm' : Tm} {u : Unit}
    (hRun : (uasMayAnswer index).run tm = some (.ok u, tm')) :
    tm = tm' ∧ (tm.tx index).role = .UAS ∧ (tm.tx index).state ≠ .TERMINATED ∧
      (tm.tx index).last_status_code < 200 := by
  obtain ⟨_, _, hDone, hRun⟩ := Op.bind_ok.mp hRun
  obtain ⟨rfl, rfl⟩ := Op.get_ok.mp hDone
  obtain ⟨_, _, hDone, hRun⟩ := Op.bind_ok.mp hRun
  obtain ⟨-, rfl⟩ := Op.assert_ok.mp hDone
  obtain ⟨_, _, hDone, hRun⟩ := Op.bind_ok.mp hRun
  obtain ⟨-, rfl⟩ := Op.require_ok.mp hDone
  obtain ⟨_, _, hDone, hRun⟩ := Op.bind_ok.mp hRun
  obtain ⟨hRole, rfl⟩ := Op.assert_ok.mp hDone
  obtain ⟨_, _, hDone, hRun⟩ := Op.bind_ok.mp hRun
  obtain ⟨hLive, rfl⟩ := Op.require_ok.mp hDone
  obtain ⟨_, _, hDone, hRun⟩ := Op.bind_ok.mp hRun
  obtain ⟨hOpen, rfl⟩ := Op.require_ok.mp hDone
  obtain ⟨-, rfl⟩ := Op.assert_ok.mp hRun
  exact ⟨rfl, hRole, hLive, hOpen⟩

/-- A server transaction that may be answered. -/
structure Txi.Answerable (tp : Txi) : Prop where
  role : tp.role = .UAS
  live : tp.state ≠ .TERMINATED
  unanswered : tp.last_status_code < 200
  same : tp.cache.method_type = tp.method_type

/-- What `usipy_sip_tm_send_uas_response` does to a slot that may be answered. -/
def uasAnswerSlot (rpp : UasResponseParams) (tm : Tm) : TxM Unit := do
  uasStoreResponse rpp tm
  let tp ← Op.get
  setCtl fun p c => c.uasAnswered p tp.cache.method_type rpp.status.code.1 (rpp.callbacks.getD {}).no_ack
  Op.modify fun tp =>
    { tp with
      cache := { tp.cache with
        uas := { tp.cache.uas with
          ack_hash := uasAckHash (tp.scratch.mem tm.mem) tp rpp.status.code.1 } } }

theorem sendUasResponse_eq (index : Nat) (rpp : UasResponseParams) :
    sendUasResponse index rpp = (do
      uasMayAnswer index
      onSlot index (uasAnswerSlot rpp)) := rfl

theorem kept_uasAnswerSlot (rpp : UasResponseParams) (tm : Tm) :
    Op.KeepsFrom Txi.Answerable (Txi.Kept allow) (uasAnswerSlot rpp tm) := by
  refine .seq (fun _ => Txi.Answerable) (kept_uasStoreResponse rpp tm).from
    (fun tp u tp' hTp hStore => ?_) fun _ => ?_
  · have hCtl := ctl_uasStoreResponse rpp tm _ _ _ hStore
    have hKept : tp.Kept {} tp' := kept_uasStoreResponse rpp tm _ _ _ hStore
    obtain ⟨hash, hCache⟩ := hKept.cache
    refine ⟨hCtl ▸ hTp.role, hCtl ▸ hTp.live, hCtl ▸ hTp.unanswered, ?_⟩
    rw [hCache, ← hCtl]
    exact hTp.same
  · refine .getBind fun tp hTp => .seq (fun _ _ => True) (fun s r t hs hSet => ?_)
      (fun _ _ _ _ _ => trivial) fun _ => Op.Keeps.from (.modify fun tp => ?_)
    · subst hs
      exact kept_setCtl (P := fun tp => tp = s) (fun _ _ hIs h => by
        subst hIs
        exact Ctl.kept_uasAnswered hTp.role hTp.live hTp.unanswered hTp.same h) _ _ _ rfl hSet
    · exact ⟨Std.Refl.refl _, ⟨_, rfl⟩, rfl, Std.Refl.refl _, Or.inr (Or.inr rfl)⟩

theorem uasStoreResponse_some {rpp : UasResponseParams} {tm : Tm} {tp tp' : Txi}
    {r : Except TmError Unit} (hRun : (uasStoreResponse rpp tm).run tp = some (r, tp')) :
    ∃ scratch, (∃ e, r = .error e ∧ tp' = { tp with scratch }) ∨
      (r = .ok () ∧ ∃ off l, tp' = { tp with
        scratch, raw := scratch.view off l, target := tp.peer }) := by
  rw [uasStoreResponse, Op.run_bind, Op.run_get, Op.andThen_ok, Op.run_bind] at hRun
  cases hBack : (rollbackTo tp.checkpoint).run tp with
  | none =>
    rw [hBack] at hRun
    cases hRun
  | some out =>
    obtain ⟨r₁, t⟩ := out
    obtain ⟨rfl, scratch, rfl⟩ := rollbackTo_some hBack
    rw [hBack, Op.andThen_ok, Op.run_bind] at hRun
    cases hBuild : (onScratch .NOSPC (Heap.build tm.mem (uasBuildResponse tm tp rpp))).run
        { tp with scratch } with
    | none =>
      rw [hBuild] at hRun
      cases hRun
    | some out =>
      obtain ⟨r₁, t₁⟩ := out
      rw [hBuild] at hRun
      cases r₁ with
      | error e₁ =>
        obtain ⟨rfl, rfl⟩ := Prod.mk.inj (Option.some.inj hRun)
        obtain ⟨scratch₁, rfl⟩ := onScratch_some hBuild
        exact ⟨scratch₁, Or.inl ⟨e₁, rfl, rfl⟩⟩
      | ok raw =>
        obtain ⟨hp, hText, rfl⟩ := onScratch_ok.mp hBuild
        obtain ⟨off, l, rfl⟩ := Heap.build_view hText
        obtain ⟨rfl, rfl⟩ := Prod.mk.inj (Option.some.inj hRun)
        exact ⟨hp, Or.inr ⟨rfl, off, l, rfl⟩⟩

/-- A slot after an answer: with its scratch heap changed only, or answered. -/
theorem uasAnswerSlot_some {rpp : UasResponseParams} {tm : Tm} {tp tp' : Txi}
    {r : Except TmError Unit} (hRun : (uasAnswerSlot rpp tm).run tp = some (r, tp')) :
    ∃ scratch, (∃ e, r = .error e ∧ tp' = { tp with scratch }) ∨
      (r = .ok () ∧ ∃ off l c, tp.toCtl.uasAnswered tp.timers tp.cache.method_type rpp.status.code.1
          (rpp.callbacks.getD {}).no_ack = some c ∧
        let answered := { tp with toCtl := c, scratch, raw := scratch.view off l, target := tp.peer }
        tp' = { answered with
          cache := { tp.cache with
            uas := { tp.cache.uas with
              ack_hash := uasAckHash (scratch.mem tm.mem) answered rpp.status.code.1 } } }) := by
  rw [uasAnswerSlot, Op.run_bind] at hRun
  cases hStore : (uasStoreResponse rpp tm).run tp with
  | none =>
    rw [hStore] at hRun
    cases hRun
  | some out =>
    obtain ⟨r₁, tp₁⟩ := out
    rw [hStore] at hRun
    obtain ⟨scratch, ⟨e, rfl, rfl⟩ | ⟨rfl, off, l, rfl⟩⟩ := uasStoreResponse_some hStore
    · obtain ⟨rfl, rfl⟩ := Prod.mk.inj (Option.some.inj hRun)
      exact ⟨scratch, Or.inl ⟨e, rfl, rfl⟩⟩
    · rw [Op.andThen_ok, Op.run_bind, Op.run_get, Op.andThen_ok, Op.run_bind] at hRun
      cases hSet : (setCtl fun p c => c.uasAnswered p tp.cache.method_type rpp.status.code.1
          (rpp.callbacks.getD {}).no_ack).run
            { tp with scratch, raw := scratch.view off l, target := tp.peer } with
      | none =>
        rw [hSet] at hRun
        cases hRun
      | some out =>
        obtain ⟨r₂, tp₂⟩ := out
        obtain ⟨c, hc, rfl, rfl⟩ := setCtl_some hSet
        rw [hSet] at hRun
        obtain ⟨rfl, rfl⟩ := Prod.mk.inj (Option.some.inj hRun)
        exact ⟨scratch, Or.inr ⟨rfl, off, l, c, hc, rfl⟩⟩

theorem lasts_uasAnswerSlot (rpp : UasResponseParams) (tm : Tm) :
    Op.KeepsFrom Txi.Answerable (Txi.Lasts allow) (uasAnswerSlot rpp tm) := by
  intro tp r tp' hTp hRun
  have hKept : tp.Kept allow tp' := kept_uasAnswerSlot rpp tm _ _ _ hTp hRun
  have hBelow := hKept.heap
  have hOpen : 200 ≤ tp.last_status_code → tp.AnswerLasts allow tp' := fun hFinal =>
    absurd hTp.unanswered (UInt16.not_lt.mpr hFinal)
  have hNames : tp.Grounded → tp.Hashed → tp'.id = tp.id → ∀ m m',
      tp.SameNames (tp.scratch.mem m) (tp'.scratch.mem m') tp' := fun hGrounded h hId m m' =>
    hGrounded.sameNames h.to_tag hBelow hId hKept.cache m m'
  obtain ⟨scratch, ⟨e, -, rfl⟩ | ⟨-, off, l, c, hc, rfl⟩⟩ := uasAnswerSlot_some hRun
  · refine ⟨hKept, rfl, fun _ => hOpen, fun _ h => ?_, fun _ hGrounded h => ?_⟩
    · exact ⟨hBelow.top h.top, hBelow.holds h.call_id, hBelow.holds h.branch, hBelow.holds h.from_tag,
        h.host.imp_right hBelow.holds, hBelow.owns h.raw, h.target⟩
    · refine ⟨hBelow.holds h.to_tag, h.tagged, h.hashes.imp_right fun ⟨m, hAck, hCancel⟩ => ⟨m, ?_, ?_⟩⟩
      · exact hAck.trans ((hNames hGrounded h rfl m m).ackHash _).symm
      · exact hCancel.trans ((hNames hGrounded h rfl m m).cancelHash rfl).symm
  · obtain ⟨hLast, hCallbacks⟩ := Ctl.uasAnswered_same hc
    refine ⟨hKept, rfl, fun _ => hOpen, fun _ h => ?_, fun _ hGrounded h => ?_⟩
    · exact ⟨hBelow.top h.top, hBelow.holds h.call_id, hBelow.holds h.branch, hBelow.holds h.from_tag,
        h.host.imp_right hBelow.holds, Heap.owns_view _ _ _, rfl⟩
    · refine ⟨hBelow.holds h.to_tag, h.tagged, h.hashes.imp_right fun ⟨m, _, hCancel⟩ => ⟨tm.mem, ?_, ?_⟩⟩
      · have hCode : c.last_status_code.toNat = rpp.status.code.1 := by
          rw [hLast, UInt16.toNat_ofNat_of_lt' (Nat.lt_of_le_of_lt rpp.status.code.2.2 (by decide))]
        dsimp only
        rw [hCode]
        rfl
      · exact hCancel.trans ((hNames hGrounded h rfl m tm.mem).cancelHash hCallbacks).symm

theorem acts_sendUasResponse (index : Nat) (rpp : UasResponseParams) :
    Op.KeepsFrom Tm.UasOk (Acts allow) (sendUasResponse index rpp) := by
  have hMay : Op.Keeps (Acts allow) (uasMayAnswer index) :=
    .bind .get fun _ => .bind (.assert _) fun _ => .bind (.require _ _) fun _ =>
      .bind (.assert _) fun _ => .bind (.require _ _) fun _ => .bind (.require _ _) fun _ => .assert _
  rw [sendUasResponse_eq]
  refine .seq (fun _ tm => (tm.tx index).Answerable) hMay.from (fun tm u tm' hOk hRun => ?_) fun _ => ?_
  · obtain ⟨rfl, hRole, hLive, hOpen⟩ := uasMayAnswer_ok hRun
    exact ⟨hRole, hLive, hOpen, (hOk index hRole).same⟩
  · exact acts_stayFrom (lasts_uasAnswerSlot rpp)

theorem moves_uasCancelOk (cancelp : Msg) (index : Nat) :
    Op.KeepsFrom Tm.UasOk (Moves allow) (uasCancelOk cancelp index) :=
  .bind Op.Keeps.get.from fun _ => .bind (Op.Keeps.assert _).from fun _ =>
    .bind (Op.Keeps.require _ _).from fun _ => .bind (Op.Keeps.assert _).from fun _ =>
      .bind (Op.Keeps.require _ _).from fun _ => .bind (moves_newUasTr _) fun _ =>
        Acts.to_moves (acts_sendUasResponse _ _)

theorem moves_uasTrCancelled (cancelp : Msg) (index : Nat) (rpp : Option UasResponseParams) :
    Op.KeepsFrom Tm.UasOk (Moves allow) (uasTrCancelled cancelp index rpp) :=
  .bind (moves_uasCancelOk cancelp index) fun _ => Acts.to_moves (acts_sendUasResponse _ _)

theorem uasAckMatchesTx_state {m : Mem} {tid : Tid} {to_tag : Option Str} {hash : UInt32} {tp : Txi}
    (h : uasAckMatchesTx m tid to_tag hash tp = true) :
    tp.role = .UAS ∧ tp.method_type = .INVITE ∧ (tp.state = .COMPLETED ∨ tp.state = .ACCEPTED) := by
  unfold uasAckMatchesTx at h
  split at h
  · cases h
  · rename_i hNot
    simp only [not_or, not_and_or, not_not] at hNot
    exact ⟨hNot.2.1, by simpa [Ctl.isInvite] using hNot.2.2.1, hNot.2.2.2.1⟩

theorem acts_handleIncomingRequest (now : UInt64) (msg : Msg) (method : Method) (tid : Tid) :
    Op.Keeps (Acts allow) (handleIncomingRequest now msg method tid) := by
  intro tm r tm' hRun
  refine Op.KeepsFrom.getBind (P := fun _ => True) (fun tm _ => ?_) tm r tm' trivial hRun
  simp only
  split
  · rename_i i hAck
    refine .ite (fun _ => ?_) fun hNot2xx => ?_
    · exact Op.Keeps.from (.bind (acts_modCtl fun _ => Ctl.rests_core rfl rfl) fun _ => .pure _)
    · have hFound : findUasAckTransaction tm msg tid = some i := by
        split at hAck
        · exact hAck
        · cases hAck
      simp only [findUasAckTransaction, Option.bind_eq_bind, Option.bind_eq_some_iff] at hFound
      obtain ⟨hdrs, -, top, -, hFind⟩ := hFound
      have hIs := List.find?_some hFind
      rw [Bool.and_eq_true] at hIs
      obtain ⟨hRole, hInvite, hState⟩ := uasAckMatchesTx_state hIs.2
      refine .seq (fun _ _ => True) (fun s r t hs hSet => ?_) (fun _ _ _ _ _ => trivial) fun _ =>
        (Op.Keeps.pure _).from
      subst hs
      exact acts_stayFrom (P := fun tp => tp = s.tx i) (fun _ => lasts_setCtl fun _ _ hIs h => by
        subst hIs
        exact Ctl.rests_uasHandleAck (Ctl.kept_uasHandleAck hRole hState hInvite hNot2xx h) h)
          _ _ _ rfl hSet
  · exact (Op.Keeps.pure _).from
  · refine Op.Keeps.from (.bind (acts_stay fun _ => .modify fun tp => Txi.lasts_ctl ?_) fun _ => .pure _)
    exact Ctl.rests_core rfl rfl
  · exact Op.Keeps.from (.bind (.require _ _) fun _ => .pure _)

theorem acts_uasRun (index : Nat) (now : UInt64) :
    Op.KeepsFrom (fun tm => (tm.tx index).role = .UAS) (Acts allow) (uasRun index now) := by
  refine .getBind fun tm hRole => .ite (fun _ => Op.Keeps.from ?_) fun _ =>
    .ite (fun _ => (Op.Keeps.pure _).from) fun _ => ?_
  · exact .bind (acts_modCtl Ctl.rests_uasMarkTerminated) fun _ => .pure _
  · refine .seq (fun _ _ => True) (fun s r t hs hSet => ?_) (fun _ _ _ _ _ => trivial) fun _ =>
      (Op.Keeps.pure _).from
    subst hs
    obtain ⟨tp, hPart, rfl⟩ := onSlot_some hSet
    obtain ⟨-, rfl⟩ := Prod.mk.inj (Option.some.inj hPart)
    exact .single (.stay index _ (Txi.lasts_ctl (Ctl.rests_startTimerL hRole now)))

/-- A turn of a server transaction that comes to a send. -/
theorem uasRun_send {i : Nat} {now : UInt64} {tm tm' : Tm}
    (h : (uasRun i now).run tm = some (.ok .send, tm')) :
    (tm.tx i).timerDue now = false ∧ (tm.tx i).state ≠ .TERMINATED ∧
      (tm.tx i).notSending now = false ∧
        tm' = tm.set i { tm.tx i with toCtl := (tm.tx i).startTimerL now } := by
  obtain ⟨_, _, hGet, h⟩ := Op.bind_ok.mp h
  obtain ⟨rfl, rfl⟩ := Op.get_ok.mp hGet
  simp only at h
  split at h
  · obtain ⟨_, _, -, h⟩ := Op.bind_ok.mp h
    obtain ⟨hTurn, -⟩ := Op.pure_ok.mp h
    cases hTurn
  · rename_i hEarly
    split at h
    · obtain ⟨hTurn, -⟩ := Op.pure_ok.mp h
      cases hTurn
    · rename_i hSending
      obtain ⟨_, _, hStart, h⟩ := Op.bind_ok.mp h
      obtain ⟨-, rfl⟩ := Op.pure_ok.mp h
      obtain ⟨tp, hPart, rfl⟩ := onSlot_ok.mp hStart
      obtain rfl := Op.modify_ok.mp hPart
      rw [not_or] at hSending
      exact ⟨Bool.eq_false_iff.mpr hEarly, hSending.1, Bool.eq_false_iff.mpr hSending.2, rfl⟩

theorem uasRun_of_sending {i : Nat} {now : UInt64} {tm : Tm} (hEarly : (tm.tx i).timerDue now = false)
    (hLive : (tm.tx i).state ≠ .TERMINATED) (hSending : (tm.tx i).notSending now = false) :
    (uasRun i now).run tm =
      some (.ok .send, tm.set i { tm.tx i with toCtl := (tm.tx i).startTimerL now }) := by
  have hDue : ¬ ((tm.tx i).state = .TERMINATED ∨ (tm.tx i).notSending now = true) :=
    not_or.mpr ⟨hLive, Bool.eq_false_iff.mp hSending⟩
  rw [uasRun, Op.run_bind, Op.run_get, Op.andThen_ok]
  simp only [hEarly, Bool.false_eq_true, if_false, if_neg hDue]
  rfl

theorem Ctl.startTimerL_role (now : UInt64) (c : Ctl) : (c.startTimerL now).role = c.role := by
  rw [Ctl.startTimerL]
  split <;> rfl

theorem Ctl.startTimerL_state (now : UInt64) (c : Ctl) : (c.startTimerL now).state = c.state := by
  rw [Ctl.startTimerL]
  split <;> rfl

/-- Timer L is not Timer J. -/
theorem Ctl.startTimerL_postponed {c : Ctl} {p : TimerPolicy} {now : UInt64} (hTimed : c.UasTimed)
    (h : (c.startTimerL now).JPostponed p now) : c.JPostponed p now := by
  rw [Ctl.startTimerL] at h
  split at h
  · rename_i hStart
    rw [UasTimed, hStart.1] at hTimed
    obtain ⟨hJ, -⟩ := h
    exact absurd (hTimed.1.symm.trans hJ) (by decide)
  · exact h

/-- A server transaction whose response was just sent. -/
structure Txi.Sending (allow : Allow) (now : UInt64) (tp : Txi) : Prop where
  role : tp.role = .UAS
  live : tp.state ≠ .TERMINATED
  ok : tp.UasOk
  rearm : tp.toCtl.JPostponed tp.timers now → allow.rearm

theorem uasSent_some {i : Nat} {now : UInt64} {tm tm' : Tm} {r : Except TmError (Option Nat)}
    (hRun : (uasSent i now).run tm = some (r, tm')) :
    ∃ c, (tm.tx i).toCtl.uasSent (tm.tx i).timers (tm.tx i).cache.method_type now = some c ∧
      tm' = tm.set i { tm.tx i with toCtl := c } ∧
      r = .ok (if (tm.tx i).state = .ACCEPTED then (tm.tx i).uas_owner else none) := by
  rw [uasSent, Op.run_bind, Op.run_get, Op.andThen_ok, Op.run_bind] at hRun
  cases hPart : (onSlot i fun _ => setCtl fun p c =>
      c.uasSent p (tm.tx i).cache.method_type now).run tm with
  | none =>
    rw [hPart] at hRun
    cases hRun
  | some out =>
    obtain ⟨r₁, tm₁⟩ := out
    rw [hPart] at hRun
    obtain ⟨tp, hSet, rfl⟩ := onSlot_some hPart
    obtain ⟨c, hc, rfl, rfl⟩ := setCtl_some hSet
    obtain ⟨rfl, rfl⟩ := Prod.mk.inj (Option.some.inj hRun)
    exact ⟨c, hc, rfl, rfl⟩

theorem acts_uasSent (index : Nat) (now : UInt64) :
    Op.KeepsFrom (fun tm => (tm.tx index).Sending allow now) (Acts allow) (uasSent index now) := by
  refine .getBind fun tm hTp => .seq (fun _ _ => True) (fun s r t hs hSet => ?_)
    (fun _ _ _ _ _ => trivial) fun _ => (Op.Keeps.pure _).from
  subst hs
  exact acts_stayFrom (P := fun tp => tp = s.tx index) (fun _ => lasts_setCtl fun _ _ hIs h => by
    subst hIs
    exact Ctl.rests_uasSent (Ctl.kept_uasSent hTp.role hTp.live hTp.ok.timed hTp.ok.same hTp.rearm h) h)
      _ _ _ rfl hSet

theorem uasLookup_isSome {tm : Tm} {index : Nat} {owner : Option Nat} :
    (uasLookup tm index owner).isSome = true ↔ index < tm.max_transactions ∧
      (tm.tx index).active = true ∧ (tm.tx index).role = .UAS ∧
        (owner = none ∨ (tm.tx index).uas_owner = owner) := by
  rw [uasLookup, Option.isSome_ite]

/-- What an owner does is done to the slot that is looked up. -/
theorem onUas_some {index : Nat} {owner : Option Nat} {f : Ctl → Ctl} {tm tm' : Tm}
    {r : Except TmError Unit} (hRun : (onUas index owner f).run tm = some (r, tm')) :
    ((uasLookup tm index owner).isSome = true ∧ r = .ok () ∧
        tm' = tm.set index { tm.tx index with toCtl := f (tm.tx index).toCtl }) ∨
      ((uasLookup tm index owner).isSome = false ∧ r = .error .NOT_FOUND ∧ tm' = tm) := by
  simp only [onUas, Op.run_bind, Op.run_get, Op.andThen_ok, Op.run_require] at hRun
  split at hRun
  · rename_i hFound
    rw [Op.andThen_ok] at hRun
    obtain ⟨tp, hPart, rfl⟩ := onSlot_some hRun
    obtain ⟨rfl, rfl⟩ := Prod.mk.inj (Option.some.inj hPart)
    exact Or.inl ⟨hFound, rfl, rfl⟩
  · rename_i hMissing
    obtain ⟨rfl, rfl⟩ := Prod.mk.inj (Option.some.inj hRun)
    exact Or.inr ⟨Bool.eq_false_iff.mpr hMissing, rfl, rfl⟩

theorem acts_onUas {index : Nat} {owner : Option Nat} {f : Ctl → Ctl}
    (h : ∀ c : Ctl, c.role = .UAS → c.Rests allow (f c)) : Op.Keeps (Acts allow) (onUas index owner f) := by
  intro tm r tm' hRun
  obtain ⟨hFound, rfl, rfl⟩ | ⟨-, rfl, rfl⟩ := onUas_some hRun
  · have hRests := h (tm.tx index).toCtl (uasLookup_isSome.mp hFound).2.2.1
    exact .single (.stay index _ (Txi.lasts_ctl hRests))
  · exact .refl

theorem acts_uasSetOwner (index owner : Nat) (hOwns : allow.owns) :
    Op.Keeps (Acts allow) (uasSetOwner index owner) :=
  acts_onUas fun _ hRole => ⟨⟨⟨rfl, rfl, rfl, fun hUac => by rw [hRole] at hUac; cases hUac⟩, rfl, id,
    Or.inl hOwns, fun _ => Ctl.staysDone_same rfl rfl rfl rfl,
    fun _ hTimed => Ctl.onward_same hTimed rfl rfl rfl rfl⟩, rfl, rfl⟩

theorem acts_uasClearOwner (index owner : Nat) : Op.Keeps (Acts allow) (uasClearOwner index owner) :=
  acts_onUas fun _ hRole => ⟨⟨⟨rfl, rfl, rfl, fun hUac => by rw [hRole] at hUac; cases hUac⟩, rfl, id,
    Or.inr (Or.inr rfl), fun _ => Ctl.staysDone_same rfl rfl rfl rfl,
    fun _ hTimed => Ctl.onward_same hTimed rfl rfl rfl rfl⟩, rfl, rfl⟩

theorem acts_uasSendAt (index owner : Nat) (at_ms : UInt64) :
    Op.Keeps (Acts allow) (uasSendAt index owner at_ms) :=
  acts_onUas fun _ _ => Ctl.rests_core rfl rfl

end Microsippy
