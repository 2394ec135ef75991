import Microsippy.Turns

/-! # What a step can reach

The slots that a step of the system can do something to, told from the state before it. Every other slot
is left as it is, but for its link to a child that goes, and nothing happens in its name.
-/

namespace Microsippy

set_option autoImplicit false

/-! ## Slots left alone -/

/-- A slot but for its child link. -/
def Txi.bare (tp : Txi) : Txi := { tp with child_index := none }

/-- Slot `j` holds what it held. -/
def Tm.Leaves (j : Nat) (tm tm' : Tm) : Prop := (tm'.tx j).bare = (tm.tx j).bare

instance (j : Nat) : IsPreorder Tm (Tm.Leaves j) where
  refl _ := rfl
  trans _ _ _ h h' := Eq.trans h' h

/-- A slot that no allocation takes or frees: it holds a transaction that is neither a child nor to be
evicted. -/
structure Ctl.Safe (c : Ctl) : Prop where
  active : c.active = true
  kept : c.evictable = false
  alone : c.parent_index = none

/-- An owner has nothing of the slot to stop. -/
def Ctl.Hushed (d : Nat) (c : Ctl) : Prop :=
  c.role = .UAS → c.uas_owner = some d → c.next_send_at_ms = TIME_NONE

/-- A slot taken by the next allocation, or freed for it. -/
def Tm.Takes (j : Nat) (tm : Tm) : Prop :=
  match tm.allocScan tm.max_transactions 0 none with
  | (some i, _) => j = i
  | (none, some v) => j = v ∨ tm.ChildOf v j
  | (none, none) => False

variable {j : Nat}

/-- Whatever is not about a slot's child link stays with it. -/
theorem Tm.Leaves.stays {P : Txi → Prop} {tm tm' : Tm} (h : tm.Leaves j tm')
    (hBare : ∀ tp : Txi, P tp.bare ↔ P tp) (hP : P (tm.tx j)) : P (tm'.tx j) := by
  have hKept : P (tm'.tx j).bare := by
    rw [h]
    exact (hBare _).mpr hP
  exact (hBare _).mp hKept

instance : Op.Stable (fun tm : Tm => (tm.tx j).Safe) (Tm.Leaves j) :=
  ⟨fun _ _ h hSafe => h.stays (P := fun tp => tp.Safe)
    (fun _ => ⟨fun ⟨a, b, c⟩ => ⟨a, b, c⟩, fun ⟨a, b, c⟩ => ⟨a, b, c⟩⟩) hSafe⟩

instance (d : Nat) : Op.Stable (fun tm : Tm => (tm.tx j).Hushed d) (Tm.Leaves j) :=
  ⟨fun _ _ h hHushed => h.stays (P := fun tp => tp.Hushed d) (fun _ => Iff.rfl) hHushed⟩

theorem Tm.leaves_set {i : Nat} (tm : Tm) (tp : Txi) (hj : j ≠ i) : tm.Leaves j (tm.set i tp) :=
  congrArg Txi.bare (Tm.set_other _ _ hj)

/-- A link changed in any slot. -/
theorem Tm.leaves_link (tm : Tm) (i : Nat) (c : Option Nat) :
    tm.Leaves j (tm.set i { tm.tx i with child_index := c }) := by
  by_cases hj : j = i
  · subst hj
    rw [Tm.Leaves, Tm.set_same]
    rfl
  · exact tm.leaves_set _ hj

theorem leaves_onSlot {α : Type} {i : Nat} (hj : j ≠ i) (x : Tm → TxM α) :
    Op.Keeps (Tm.Leaves j) (onSlot i x) := by
  intro tm r tm' hRun
  obtain ⟨tp, -, rfl⟩ := onSlot_some hRun
  exact tm.leaves_set _ hj

theorem leaves_unlink (i : Nat) (c : Option Nat) :
    Op.Keeps (Tm.Leaves j) (onSlot i fun _ => modCtl fun ctl => { ctl with child_index := c }) := by
  intro tm r tm' hRun
  obtain ⟨tp, hPart, rfl⟩ := onSlot_some hRun
  obtain ⟨-, rfl⟩ := Prod.mk.inj (Option.some.inj hPart)
  exact tm.leaves_link i c

theorem leaves_activate {i : Nat} (hj : j ≠ i) (b : Nat) :
    Op.Keeps (Tm.Leaves j) (Op.modify (Tm.activate i b) : TmM Unit) :=
  .modify fun tm => tm.leaves_set _ hj

theorem leaves_filling {α : Type} {i : Nat} (hj : j ≠ i) (x : Tm → TxM α) :
    Op.Keeps (Tm.Leaves j) (filling i x) := leaves_onSlot hj _

theorem leaves_leaking {α : Type} {i : Nat} (hj : j ≠ i) {x : TmM α} (hx : Op.Keeps (Tm.Leaves j) x) :
    Op.Keeps (Tm.Leaves j) (leaking i x) := hx.cleanup fun tm => tm.leaves_set _ hj

/-! ## Slots taken and given back -/

theorem Tm.leaves_drop {i : Nat} (tm : Tm) (hj : j ≠ i) (hChild : ¬ tm.ChildOf i j) :
    tm.Leaves j (tm.drop i) := by
  rw [Tm.Leaves, Tm.drop_tx, if_neg (not_or.mpr ⟨hj, hChild⟩), Tm.dropLinked]
  split <;> rfl

theorem leaves_dropTransaction (i : Nat) :
    Op.KeepsFrom (fun tm => j ≠ i ∧ ¬ tm.ChildOf i j) (Tm.Leaves j) (dropTransaction i) := by
  refine .getBind fun tm hBoth => .requireBind fun _ => .requireBind fun _ => ?_
  rintro s r s' rfl hRun
  obtain ⟨-, rfl⟩ := Prod.mk.inj (Option.some.inj hRun)
  exact s.leaves_drop hBoth.1 hBoth.2

theorem allocSlot_leaves {tm tm' : Tm} {r : Except TmError Nat} (hNot : ¬ tm.Takes j)
    (hRun : allocSlot.run tm = some (r, tm')) : tm.Leaves j tm' ∧ ∀ i, r = .ok i → j ≠ i := by
  rw [Tm.Takes] at hNot
  rw [allocSlot, Op.run_bind, Op.run_get, Op.andThen_ok] at hRun
  cases hScan : tm.allocScan tm.max_transactions 0 none with
  | mk free victim =>
    rw [hScan] at hNot hRun
    cases free with
    | some i =>
      obtain ⟨rfl, rfl⟩ := Prod.mk.inj (Option.some.inj hRun)
      exact ⟨tm.leaves_set _ hNot, fun k hk => Except.ok.inj hk ▸ hNot⟩
    | none =>
      cases victim with
      | none =>
        obtain ⟨rfl, rfl⟩ := Prod.mk.inj (Option.some.inj hRun)
        exact ⟨Std.Refl.refl _, fun k hk => by cases hk⟩
      | some v =>
        obtain ⟨hj, hChild⟩ := not_or.mp hNot
        refine ⟨?_, fun k hk => ?_⟩
        · refine Op.KeepsFrom.seq (fun _ _ => True) ((leaves_dropTransaction v).failWith _)
            (fun _ _ _ _ _ => trivial) (fun _ => Op.Keeps.from ?_) _ _ _ ⟨hj, hChild⟩ hRun
          exact .bind (.modify fun tm => tm.leaves_set _ hj) fun _ => .pure _
        · subst hk
          obtain ⟨_, _, -, hRun⟩ := Op.bind_ok.mp hRun
          obtain ⟨_, _, -, hRun⟩ := Op.bind_ok.mp hRun
          obtain ⟨rfl, -⟩ := Op.pure_ok.mp hRun
          exact hj

theorem Ctl.Safe.not_takes {tm : Tm} (h : (tm.tx j).Safe) : ¬ tm.Takes j := by
  intro hTakes
  rw [Tm.Takes] at hTakes
  rcases tm.allocScan_spec tm.max_transactions 0 none (by simp) (by simp [Tm.Earliest]) with
    ⟨k, -, hFree, hIs⟩ | ⟨-, last, hLast, hIs⟩
  · rw [hIs] at hTakes
    obtain rfl : j = k := hTakes
    exact hFree h.active
  · rw [hIs] at hTakes
    cases last with
    | none => exact hTakes
    | some victim =>
      obtain ⟨v, due⟩ := victim
      rcases hTakes with rfl | ⟨-, -, hParent⟩
      · exact Bool.noConfusion (h.kept.symm.trans hLast.1.2.1)
      · rw [h.alone] at hParent
        cases hParent

/-- A computation that makes a transaction, in a slot that is not `j` unless the next allocation takes
that. -/
def Makes (j : Nat) (x : TmM Nat) : Prop :=
  ∀ tm r tm', ¬ tm.Takes j → x.run tm = some (r, tm') → tm.Leaves j tm' ∧ ∀ i, r = .ok i → j ≠ i

theorem makes_alloc {f : Nat → TmM Nat} (hf : ∀ i, j ≠ i → Op.Keeps (Tm.Leaves j) (f i))
    (hReturns : ∀ i k tm tm', (f i).run tm = some (.ok k, tm') → k = i) : Makes j (allocSlot >>= f) := by
  intro tm r tm' hNot hRun
  rw [Op.run_bind] at hRun
  cases hAlloc : allocSlot.run tm with
  | none =>
    rw [hAlloc] at hRun
    cases hRun
  | some out =>
    obtain ⟨r₁, tm₁⟩ := out
    obtain ⟨hLeaves, hOther⟩ := allocSlot_leaves hNot hAlloc
    rw [hAlloc] at hRun
    cases r₁ with
    | error e =>
      obtain ⟨rfl, rfl⟩ := Prod.mk.inj (Option.some.inj hRun)
      exact ⟨hLeaves, fun i hi => by cases hi⟩
    | ok k =>
      have hk := hOther k rfl
      refine ⟨IsTrans.trans _ _ _ hLeaves (hf k hk _ _ _ hRun), ?_⟩
      rintro i rfl
      exact hReturns k i _ _ hRun ▸ hk

/-- What is looked up and checked first. -/
theorem Makes.after {α : Type} {x : TmM α} {f : α → TmM Nat} (hx : Op.Keeps Eq x) (hf : ∀ a, Makes j (f a)) :
    Makes j (x >>= f) := by
  intro tm r tm' hNot hRun
  rw [Op.run_bind] at hRun
  cases hFirst : x.run tm with
  | none =>
    rw [hFirst] at hRun
    cases hRun
  | some out =>
    obtain ⟨r₁, tm₁⟩ := out
    obtain rfl := hx _ _ _ hFirst
    rw [hFirst] at hRun
    cases r₁ with
    | error e =>
      obtain ⟨rfl, rfl⟩ := Prod.mk.inj (Option.some.inj hRun)
      exact ⟨Std.Refl.refl _, fun i hi => by cases hi⟩
    | ok a => exact hf a _ _ _ hNot hRun

theorem Makes.from {x : TmM Nat} (hx : Makes j x) : Op.KeepsFrom (fun tm => ¬ tm.Takes j) (Tm.Leaves j) x :=
  fun tm r tm' hNot hRun => (hx tm r tm' hNot hRun).1

theorem Makes.other {x : TmM Nat} (hx : Makes j x) {tm tm' : Tm} {i : Nat} (hNot : ¬ tm.Takes j)
    (hRun : x.run tm = some (.ok i, tm')) : j ≠ i := (hx _ _ _ hNot hRun).2 i rfl

/-! ## Client transactions -/

theorem leaves_activateUacSlot {i : Nat} (hj : j ≠ i) (state : TxState) (cseq : UInt32) (target local_ : Addr)
    (callbacks : UacCallbacks) (timers : TimerPolicy) :
    Op.Keeps (Tm.Leaves j) (activateUacSlot i state cseq target local_ callbacks timers) :=
  .bind (leaves_activate hj _) fun _ => leaves_onSlot hj _

theorem makes_newUacTr (tpp : NewUacTrParams) : Makes j (newUacTr tpp) := by
  refine .after (acts_lookupUacMethod _ _) fun mdp => makes_alloc (fun i hi => ?_) fun i k tm tm' hRun => ?_
  · refine .bind (leaves_filling hi _) fun addrs => .bind (leaves_activateUacSlot hi _ _ _ _ _ _) fun _ => ?_
    exact .bind (leaves_leaking hi (leaves_onSlot hi _)) fun _ => .pure _
  · obtain ⟨addrs, _, -, hRun⟩ := Op.bind_ok.mp hRun
    obtain ⟨_, _, -, hRun⟩ := Op.bind_ok.mp hRun
    obtain ⟨_, _, -, hRun⟩ := Op.bind_ok.mp hRun
    exact (Op.pure_ok.mp hRun).1.symm

theorem makes_newInDialogTransaction (tpp : NewInDialogParams) : Makes j (newInDialogTransaction tpp) := by
  refine .after (.assert _) fun _ => .after (.require _ _) fun _ =>
    .after (acts_lookupUacMethod _ _) fun mdp =>
    makes_alloc (fun i hi => ?_) fun i k tm tm' hRun => ?_
  · refine .bind ((leaves_filling hi _).failWith _) fun addrs =>
      .bind (leaves_activateUacSlot hi _ _ _ _ _ _) fun _ => ?_
    exact .bind (leaves_leaking hi (.failWith (leaves_onSlot hi _) _)) fun _ => .pure _
  · obtain ⟨addrs, _, -, hRun⟩ := Op.bind_ok.mp hRun
    obtain ⟨_, _, -, hRun⟩ := Op.bind_ok.mp hRun
    obtain ⟨_, _, -, hRun⟩ := Op.bind_ok.mp hRun
    exact (Op.pure_ok.mp hRun).1.symm

theorem makes_cloneUacInvite (parent_index : Nat) (method : Method) :
    Makes j (cloneUacInvite parent_index method) := by
  refine makes_alloc (fun i hi => .bind ?_ fun _ => .pure _) fun i k tm tm' hRun => ?_
  · exact .bind .get fun tm => .bind (leaves_filling hi _) fun _ => .bind (leaves_activate hi _) fun _ =>
      leaves_leaking hi (leaves_onSlot hi _)
  · obtain ⟨_, _, -, hRun⟩ := Op.bind_ok.mp hRun
    exact (Op.pure_ok.mp hRun).1.symm

theorem leaves_sendCancel {i : Nat} (hj : j ≠ i) :
    Op.KeepsFrom (fun tm => (tm.tx j).Safe) (Tm.Leaves j) (sendCancel i) := by
  refine .seq (fun c _ => j ≠ c) ((makes_cloneUacInvite _ _).from.mono fun _ h => h.not_takes)
    (fun tm c tm' hSafe hRun => (makes_cloneUacInvite _ _).other hSafe.not_takes hRun) fun c =>
    Op.KeepsFrom.ofProp fun hc => ?_
  refine .bind (leaves_onSlot hc _) fun _ => .bind ?_ fun _ => .bind (leaves_onSlot hj _) fun _ =>
    leaves_onSlot hc _
  exact (Op.Keeps.failWith (leaves_onSlot hc _) _).cleanup fun tm => tm.leaves_set _ hc

theorem leaves_startCancelOrFinish {i : Nat} (hj : j ≠ i) :
    Op.KeepsFrom (fun tm => (tm.tx j).Safe) (Tm.Leaves j) (startCancelOrFinish i) := by
  refine .bind (.attempt ?_) fun r => ?_
  · refine .bind Op.Keeps.get.from fun tm => .bind (Op.Keeps.demand _).from fun iv => ?_
    refine .ite (fun _ => (Op.Keeps.pure _).from) fun _ => .ite (fun _ => ?_) fun _ => leaves_sendCancel hj
    exact (leaves_onSlot hj _).from
  · cases r with
    | ok _ => exact (Op.Keeps.pure _).from
    | error _ => exact (leaves_onSlot hj _).from

theorem leaves_uacAbandon {i : Nat} (hj : j ≠ i) :
    Op.KeepsFrom (fun tm => (tm.tx j).Safe) (Tm.Leaves j) (uacAbandon i) := by
  refine .bind Op.Keeps.get.from fun tm => .bind (Op.Keeps.assert _).from fun _ => ?_
  refine .bind (leaves_onSlot hj _).from fun _ => .ite (fun _ => (leaves_onSlot hj _).from) fun _ => ?_
  exact leaves_startCancelOrFinish hj

theorem leaves_nextTransaction {i : Nat} (hj : j ≠ i) (payload : Option RequestPayload)
    (ehp : List ExtraHeader) : Op.Keeps (Tm.Leaves j) (nextTransaction i payload ehp) := by
  refine .bind ?_ fun _ => .bind ?_ fun _ => .bind .get fun tm => ?_
  · exact .bind .get fun _ => .bind (.require _ _) fun _ => .bind (.require _ _) fun _ => .require _ _
  · refine .bind .get fun tm => ?_
    cases (tm.tx i).child_index with
    | none => exact .pure _
    | some c => exact .bind (.assert _) fun _ => .bind (.require _ _) fun _ => leaves_unlink i none
  · exact .bind (.assert _) fun _ => .bind (.require _ _) fun _ => leaves_onSlot hj _

theorem leaves_cancel {i : Nat} (hj : j ≠ i) :
    Op.KeepsFrom (fun tm => (tm.tx j).Safe) (Tm.Leaves j) (cancel i) := by
  refine .bind Op.Keeps.get.from fun tm => .bind (Op.Keeps.require _ _).from fun _ => ?_
  refine .bind (Op.Keeps.require _ _).from fun _ => .bind (Op.Keeps.assert _).from fun _ => ?_
  refine .bind (Op.Keeps.require _ _).from fun _ => .bind (Op.Keeps.require _ _).from fun _ => ?_
  refine .bind (Op.Keeps.demand _).from fun iv => .bind (Op.Keeps.assert _).from fun _ => ?_
  refine .bind (leaves_onSlot hj _).from fun _ => .ite (fun _ => (Op.Keeps.pure _).from) fun _ => ?_
  exact leaves_uacAbandon hj

theorem leaves_setTimerPolicy {i : Nat} (hj : j ≠ i) (policy : TimerPolicy) :
    Op.Keeps (Tm.Leaves j) (setTimerPolicy i policy) :=
  .bind .get fun _ => .bind (.require _ _) fun _ => .bind (.require _ _) fun _ => leaves_onSlot hj _

/-! ## Responses to requests of the manager -/

theorem ackOf_leaves {i : Nat} {tm tm' : Tm} {r : Except TmError Nat} (hSafe : (tm.tx j).Safe)
    (hChild : (tm.tx i).child_index ≠ some j) (hRun : (ackOf i).run tm = some (r, tm')) :
    tm.Leaves j tm' ∧ ∀ k, r = .ok k → j ≠ k := by
  rw [ackOf, Op.run_bind, Op.run_get, Op.andThen_ok] at hRun
  cases hIs : (tm.tx i).child_index with
  | none =>
    rw [hIs] at hRun
    refine ⟨?_, ?_⟩
    · refine Op.KeepsFrom.bind (P := fun tm : Tm => (tm.tx j).Safe)
        ((makes_cloneUacInvite _ _).from.mono fun _ h => h.not_takes) (fun c => ?_) _ _ _ hSafe hRun
      exact Op.Keeps.from (.bind (leaves_unlink i _) fun _ => .pure _)
    · rintro k rfl
      obtain ⟨c, _, hClone, hRun⟩ := Op.bind_ok.mp hRun
      obtain ⟨_, _, -, hRun⟩ := Op.bind_ok.mp hRun
      obtain ⟨rfl, -⟩ := Op.pure_ok.mp hRun
      exact (makes_cloneUacInvite _ _).other hSafe.not_takes hClone
  | some c =>
    rw [hIs] at hRun hChild
    refine ⟨Op.Keeps.bind (.assert _) (fun _ => .pure _) _ _ _ hRun, ?_⟩
    rintro k rfl
    obtain ⟨_, _, -, hRun⟩ := Op.bind_ok.mp hRun
    obtain ⟨rfl, -⟩ := Op.pure_ok.mp hRun
    rintro rfl
    exact hChild rfl

theorem leaves_prepareAck {i a : Nat} (ha : j ≠ a) (msg : Msg) (sclass : Nat) :
    Op.Keeps (Tm.Leaves j) (prepareAck i a msg sclass) :=
  .bind .get fun _ => .ite (fun _ => .pure _) fun _ => .bind (leaves_onSlot ha _) fun _ =>
    .bind (leaves_onSlot ha _) fun _ => .failWith (leaves_onSlot ha _) _

theorem Tm.leaves_queueBye {b : Nat} (hb : j ≠ b) (i a : Nat) (tm : Tm) : tm.Leaves j (tm.queueBye i a b) :=
  IsTrans.trans _ _ _ (tm.leaves_set _ hb) (Tm.leaves_link _ _ _)

theorem leaves_abandonedUac {i : Nat} (hj : j ≠ i) (msg : Msg) (sclass : Nat) :
    Op.KeepsFrom (fun tm => (tm.tx j).Safe) (Tm.Leaves j) (abandonedUac i msg sclass) := by
  refine .bind Op.Keeps.get.from fun tm => .bind (Op.Keeps.demand _).from fun iv => ?_
  refine .ite (fun _ => (Op.Keeps.pure _).from) fun _ => .bind (keeps_onLocalHeap _ _).from fun dialog => ?_
  refine .seq (fun b _ => j ≠ b) ((makes_newInDialogTransaction _).from.mono fun _ h => h.not_takes)
    (fun tm b tm' hSafe hRun => (makes_newInDialogTransaction _).other hSafe.not_takes hRun)
    fun b => Op.KeepsFrom.ofProp fun hb => ?_
  exact .bind .get fun _ => .bind (.demand _) fun a => .bind (.modify (Tm.leaves_queueBye hb i a)) fun _ =>
    leaves_onSlot hj _

theorem leaves_uacAckFinal {i : Nat} (hj : j ≠ i) (msg : Msg) (sclass : Nat) (now : UInt64) :
    Op.KeepsFrom (fun tm => (tm.tx j).Safe ∧ (tm.tx i).child_index ≠ some j) (Tm.Leaves j)
      (uacAckFinal i msg sclass now) := by
  refine .seq (fun a tm => (tm.tx j).Safe ∧ j ≠ a) (fun tm r tm' hBoth hRun => ?_)
    (fun tm a tm' hBoth hRun => ?_) fun a => ?_
  · exact (ackOf_leaves hBoth.1 hBoth.2 hRun).1
  · obtain ⟨hLeaves, hOther⟩ := ackOf_leaves hBoth.1 hBoth.2 hRun
    exact ⟨Op.Stable.stays (P := fun tm : Tm => (tm.tx j).Safe) _ _ hLeaves hBoth.1, hOther a rfl⟩
  · intro tm r tm' hBoth hRun
    refine Op.KeepsFrom.bind (P := fun tm : Tm => (tm.tx j).Safe) (leaves_prepareAck hBoth.2 _ _).from
      (fun _ => .bind Op.Keeps.get.from fun _ => .bind ?_ fun _ => ?_) _ _ _ hBoth.1 hRun
    · exact .ite (fun _ => leaves_abandonedUac hj _ _) fun _ => (Op.Keeps.pure _).from
    · exact Op.Keeps.from (.bind (leaves_onSlot hBoth.2 _) fun _ => leaves_onSlot hj _)

theorem Ctl.inviteFinal_child {p : TimerPolicy} {now : UInt64} {sclass : Nat} {c c' : Ctl}
    (h : c.inviteFinal p now sclass = some c') : c'.child_index = c.child_index := by
  rw [Ctl.inviteFinal] at h
  split at h
  · obtain ⟨ms, -, rfl⟩ := Option.map_eq_some_iff.mp h
    rfl
  · obtain rfl := Option.some.inj h
    rfl

theorem leaves_uacResponded {i : Nat} (hj : j ≠ i) (now : UInt64) (msg : Msg) (code : StatusCode) :
    Op.KeepsFrom (fun tm => (tm.tx i).isInvite = true → (tm.tx j).Safe ∧ (tm.tx i).child_index ≠ some j)
      (Tm.Leaves j) (uacResponded i now msg code) := by
  refine .getBind fun tm hInvite => .ite (fun hFirst => .ite
    (fun _ => (Op.Keeps.pure _).from) fun _ => ?_) fun _ =>
    .ite (fun hIs => ?_) fun _ => .ite (fun _ => ?_) fun _ => ?_
  · rintro s r s' rfl hRun
    refine Op.KeepsFrom.bind (P := fun tm : Tm => (tm.tx j).Safe) (leaves_onSlot hj _).from (fun _ =>
      .bind (Op.Keeps.demand _).from fun iv => .bind
        (.ite (fun _ => ?_) fun _ => (Op.Keeps.pure _).from) fun _ =>
        (Op.Keeps.pure _).from) _ _ _ (hInvite hFirst.1).1 hRun
    exact .bind (leaves_startCancelOrFinish hj) fun _ => (leaves_onSlot hj _).from
  · rintro s r s' rfl hRun
    refine Op.KeepsFrom.seq (P := fun t => t = s)
      (fun _ t => (t.tx j).Safe ∧ (t.tx i).child_index ≠ some j) (leaves_onSlot hj _).from ?_ (fun _ =>
      .seq (fun _ _ => True) (leaves_uacAckFinal hj _ _ _) (fun _ _ _ _ _ => trivial) fun _ =>
        (Op.Keeps.pure _).from) _ _ _ rfl hRun
    rintro s _ t rfl hSet
    obtain ⟨hSafe, hChild⟩ := hInvite hIs
    obtain ⟨tp, hPart, rfl⟩ := onSlot_ok.mp hSet
    obtain ⟨_, tp₁, hCtl, hMod⟩ := Op.bind_ok.mp hPart
    obtain ⟨c, hc, -, rfl⟩ := setCtl_some hCtl
    obtain rfl := Op.modify_ok.mp hMod
    refine ⟨by rwa [Tm.set_other _ _ hj], ?_⟩
    rw [Tm.set_same]
    exact fun hLink => hChild ((Ctl.inviteFinal_child hc).symm.trans hLink)
  · exact Op.Keeps.from (.bind (leaves_onSlot hj _) fun _ => .pure _)
  · exact Op.Keeps.from (.bind (leaves_onSlot hj _) fun _ => .pure _)

theorem leaves_uacResponseDone {i : Nat} (hj : j ≠ i) (code : StatusCode) :
    Op.Keeps (Tm.Leaves j) (uacResponseDone i code) :=
  .bind .get fun _ => .ite (fun _ => leaves_onSlot hj _) fun _ => .pure _

/-! ## A client's turn -/

/-- The transactions the child links of a slot lead to. -/
inductive Tm.Chain (tm : Tm) (p : Nat) : Nat → Prop
  | child {c : Nat} (hLink : (tm.tx p).child_index = some c) (hActive : (tm.tx c).active = true) :
      Chain tm p c
  | later {c d : Nat} (h : Chain tm p c) (hLink : (tm.tx c).child_index = some d)
      (hActive : (tm.tx d).active = true) : Chain tm p d

namespace Tm.Chain

variable {tm tm' : Tm} {p c d : Nat}

theorem behind (hLink : (tm.tx p).child_index = some c) (hActive : (tm.tx c).active = true)
    (h : tm.Chain c d) : tm.Chain p d := by
  induction h with
  | child hNext hOn => exact .later (.child hLink hActive) hNext hOn
  | later _ hNext hOn ih => exact .later ih hNext hOn

theorem congr (hLinks : ∀ k, (tm'.tx k).child_index = (tm.tx k).child_index ∧
    (tm'.tx k).active = (tm.tx k).active) (h : tm'.Chain p d) : tm.Chain p d := by
  induction h with
  | child hLink hOn => exact .child ((hLinks _).1.symm.trans hLink) ((hLinks _).2.symm.trans hOn)
  | later _ hLink hOn ih => exact .later ih ((hLinks _).1.symm.trans hLink) ((hLinks _).2.symm.trans hOn)

/-- Links do not change with other work on a slot. -/
theorem of_set {i : Nat} (tp : Txi) (hLink : tp.child_index = (tm.tx i).child_index)
    (hActive : tp.active = (tm.tx i).active) (h : (tm.set i tp).Chain p d) : tm.Chain p d := by
  refine h.congr fun k => ?_
  by_cases hk : k = i
  · rw [hk, Tm.set_same]
    exact ⟨hLink, hActive⟩
  · rw [Tm.set_other _ _ hk]
    exact ⟨rfl, rfl⟩

end Tm.Chain

theorem leaves_txTerminateChild (fuel p : Nat) :
    Op.KeepsFrom (fun tm => ¬ tm.Chain p j) (Tm.Leaves j) (txTerminateChild fuel p) := by
  induction fuel generalizing p with
  | zero => exact (Op.Keeps.assert _).from
  | succ fuel ih =>
    rw [txTerminateChild]
    refine .getBind fun tm hNot => ?_
    cases hLink : (tm.tx p).child_index with
    | none => exact (Op.Keeps.pure _).from
    | some c =>
      refine .assertBind fun _ => .seq (fun _ _ => True)
        (.ite (fun hActive => ?_) fun _ => (Op.Keeps.pure _).from)
        (fun _ _ _ _ _ => trivial) fun _ => (leaves_unlink p none).from
      rintro s r s' rfl hRun
      have hc : j ≠ c := by
        rintro rfl
        exact hNot (.child hLink hActive)
      exact Op.KeepsFrom.seq (fun _ _ => True) (ih c) (fun _ _ _ _ _ => trivial)
        (fun _ => (leaves_onSlot hc _).from) _ _ _ (fun h => hNot (h.behind hLink hActive)) hRun

/-- A client's turn does something to slot `j`. -/
inductive Tm.ClientReaches (tm : Tm) (now : UInt64) (i j : Nat) : Prop
  /-- The turn of the slot itself comes to something. -/
  | own (hj : j = i) (hLive : ¬ ((tm.tx i).state = .TERMINATED ∨ (tm.tx i).terminated = true))
      (h : (tm.tx i).cleanupDue = true ∨ (tm.tx i).Due now)
  /-- The deadline of an INVITE passes, and a CANCEL may be made. -/
  | cancel (hLive : ¬ ((tm.tx i).state = .TERMINATED ∨ (tm.tx i).terminated = true))
      (hExpires : (tm.tx i).Expires now) (hUnsafe : ¬ (tm.tx j).Safe)
  /-- The timer ends a transaction and those behind it. -/
  | child (hLive : ¬ ((tm.tx i).state = .TERMINATED ∨ (tm.tx i).terminated = true))
      (hDue : (tm.tx i).timerDue now = true) (hChain : tm.Chain i j)
  /-- A request is sent that another waits behind. -/
  | bye (hLive : ¬ ((tm.tx i).state = .TERMINATED ∨ (tm.tx i).terminated = true))
      (hSending : (tm.tx i).notSending now = false) (hLink : (tm.tx i).child_index = some j)

theorem leaves_uacExpireInvite {i : Nat} (hj : j ≠ i) (now : UInt64) :
    Op.KeepsFrom (fun tm => (tm.tx i).abandoned = false → (tm.tx j).Safe) (Tm.Leaves j)
      (uacExpireInvite i now) := by
  refine .getBind fun tm hOpen => ?_
  rintro s r s' rfl hRun
  refine Op.KeepsFrom.seq (P := fun t => t = s) (fun _ t => t = s) (Op.Keeps.demand _).from
    (fun t _ t' hs hRun => ((Op.demand_ok.mp hRun).2.symm.trans hs : t' = s)) (fun iv => ?_) _ _ _ rfl hRun
  refine .ite (fun hIs => ?_) fun _ => (Op.Keeps.bind (leaves_onSlot hj _) fun _ => .pure _).from
  rintro t r t' rfl hRun
  have hSafe : (t.tx j).Safe := hOpen (by simpa using hIs)
  exact Op.KeepsFrom.bind (P := fun tm : Tm => (tm.tx j).Safe) (leaves_uacAbandon hj)
    (fun _ => Op.Keeps.from (.bind (leaves_onSlot hj _) fun _ => .pure _)) _ _ _ hSafe hRun

theorem leaves_uacTimerFired {i : Nat} (hj : j ≠ i) :
    Op.KeepsFrom (fun tm => ¬ tm.Chain i j) (Tm.Leaves j) (uacTimerFired i) := by
  refine .seq (fun _ tm => ¬ tm.Chain i j) (leaves_onSlot hj _).from
    (fun tm _ tm' hNot hRun => ?_) fun _ => ?_
  · obtain ⟨tp, hPart, rfl⟩ := onSlot_ok.mp hRun
    obtain rfl := Op.modify_ok.mp hPart
    exact fun h => hNot (Tm.Chain.of_set { tm.tx i with toCtl :=
      (tm.tx i).markTerminated.clearTimer } rfl rfl h)
  · refine .getBind fun tm hNot => ?_
    rintro s r s' rfl hRun
    exact Op.KeepsFrom.seq (fun _ _ => True) (leaves_txTerminateChild _ i) (fun _ _ _ _ _ => trivial)
      (fun _ => Op.Keeps.from (.bind .get fun _ => .pure _)) _ _ _ hNot hRun

theorem uacRun_leaves {tm tm' : Tm} {now : UInt64} {i : Nat} {r : Except TmError UacTurn}
    (hRole : (tm.tx i).role = .UAC) (hNot : ¬ tm.ClientReaches now i j)
    (hRun : (uacRun i now).run tm = some (r, tm')) :
    tm.Leaves j tm' ∧ (j = i → r = .ok .over ∨ r = .ok .idle) := by
  rw [uacRun, Op.run_bind, Op.run_get, Op.andThen_ok] at hRun
  split at hRun
  · obtain ⟨rfl, rfl⟩ := Prod.mk.inj (Option.some.inj hRun)
    exact ⟨Std.Refl.refl _, fun _ => Or.inl rfl⟩
  rename_i hLive
  rw [Op.run_bind] at hRun
  cases hArm : (onSlot i fun _ => uacArmCleanup now).run tm with
  | none =>
    rw [hArm] at hRun
    cases hRun
  | some out =>
    obtain ⟨r₁, tm₁⟩ := out
    rw [hArm] at hRun
    obtain ⟨tp, hPart, rfl⟩ := onSlot_some hArm
    obtain ⟨c, hc, rfl, rfl⟩ := setCtl_some hPart
    obtain ⟨invite, hIs⟩ := Ctl.armCleanup_some hc
    rw [Op.andThen_ok, Op.run_bind, Op.run_get, Op.andThen_ok] at hRun
    simp only [Tm.set_same] at hRun
    by_cases hj : j = i
    · -- nothing is due in the slot, and no guard is to be armed
      have hQuiet : ¬ ((tm.tx i).cleanupDue = true ∨ (tm.tx i).Due now) := fun h => hNot (.own hj hLive h)
      obtain ⟨hNoGuard, hRests⟩ := not_or.mp hQuiet
      obtain rfl : c = (tm.tx i).toCtl := by
        rw [Ctl.armCleanup, if_neg hNoGuard] at hc
        exact (Option.some.inj hc).symm
      rw [if_neg fun h => hRests (Or.inl ⟨hRole, h⟩), if_neg fun h => hRests (Or.inr (Or.inl h)),
        if_pos (by_contra fun h => hRests (Or.inr (Or.inr (Bool.eq_false_iff.mpr h))))] at hRun
      obtain ⟨rfl, rfl⟩ := Prod.mk.inj (Option.some.inj hRun)
      refine ⟨?_, fun _ => Or.inr rfl⟩
      rw [Tm.set_self]
      exact Std.Refl.refl _
    · have hFirst : (tm.Leaves j) (tm.set i { toCtl := c, toData := (tm.tx i).toData }) := tm.leaves_set _ hj
      refine ⟨IsTrans.trans _ _ _ hFirst ?_, fun h => absurd h hj⟩
      split at hRun
      · rename_i hExpired
        refine leaves_uacExpireInvite hj now _ _ _ (fun hOpen => ?_) hRun
        simp only [Tm.set_same] at hOpen
        have hWas : (tm.tx i).abandoned = false := by rwa [hIs] at hOpen
        rw [Ctl.armCleanup_open hWas hc] at hExpired
        rw [Tm.set_other _ _ hj]
        exact by_contra fun h => hNot (.cancel hLive ⟨hWas, hExpired⟩ h)
      · split at hRun
        · rename_i hDue
          rw [hIs] at hDue
          refine leaves_uacTimerFired hj _ _ _ (fun hChain => ?_) hRun
          exact hNot (.child hLive hDue (Tm.Chain.of_set { tm.tx i with toCtl := c }
            (by rw [hIs]) (by rw [hIs]) hChain))
        · refine Op.Keeps.ite (fun _ => .pure _) (fun _ => .bind ?_ fun _ => .pure _) _ _ _ hRun
          exact .ite (fun _ => leaves_onSlot hj _) fun _ => .pure _

theorem leaves_uacTimedOut {i : Nat} (hj : j ≠ i) (rest : TimeoutRest) :
    Op.Keeps (Tm.Leaves j) (uacTimedOut i rest) := by
  refine .bind .get fun _ => ?_
  cases rest with
  | expired => exact .pure _
  | cleaned => exact leaves_onSlot hj _
  | timer => exact .ite (fun _ => leaves_onSlot hj _) fun _ => .pure _

/-! ## Server transactions -/

theorem makes_newUasTr (tpp : NewUasTrParams) : Makes j (newUasTr tpp) := by
  refine .after .get fun tm => .after (.demand _) fun line => .after (.require _ _) fun _ =>
    .after (.orElse _ _) fun tid => .after (.require _ _) fun _ =>
      makes_alloc (fun i hi => ?_) fun i k tm tm' hRun => ?_
  · exact .bind (leaves_filling hi _) fun _ =>
      .bind (.bind (leaves_activate hi _) fun _ => leaves_onSlot hi _) fun _ => .pure _
  · obtain ⟨_, _, -, hRun⟩ := Op.bind_ok.mp hRun
    obtain ⟨_, _, -, hRun⟩ := Op.bind_ok.mp hRun
    exact (Op.pure_ok.mp hRun).1.symm

theorem leaves_sendUasResponse {i : Nat} (hj : j ≠ i) (rpp : UasResponseParams) :
    Op.Keeps (Tm.Leaves j) (sendUasResponse i rpp) := by
  refine .bind ?_ fun _ => leaves_onSlot hj _
  exact .bind .get fun _ => .bind (.assert _) fun _ => .bind (.require _ _) fun _ =>
    .bind (.assert _) fun _ =>
    .bind (.require _ _) fun _ => .bind (.require _ _) fun _ => .assert _

theorem leaves_uasCancelOk (cancelp : Msg) (i : Nat) :
    Op.KeepsFrom (fun tm => ¬ tm.Takes j) (Tm.Leaves j) (uasCancelOk cancelp i) := by
  refine .getBind fun tm hNot => .assertBind fun _ => .requireBind fun _ => .assertBind fun _ =>
    .requireBind fun _ => ?_
  rintro s r s' rfl hRun
  refine Op.KeepsFrom.seq (P := fun tm : Tm => ¬ tm.Takes j) (fun c _ => j ≠ c) (makes_newUasTr _).from
    (fun tm c tm' hNot hRun => (makes_newUasTr _).other hNot hRun)
    (fun c => Op.KeepsFrom.ofProp fun hc => ?_) _ _ _ hNot hRun
  exact leaves_sendUasResponse hc _

theorem leaves_uasTrCancelled {i : Nat} (hj : j ≠ i) (cancelp : Msg) (rpp : Option UasResponseParams) :
    Op.KeepsFrom (fun tm => ¬ tm.Takes j) (Tm.Leaves j) (uasTrCancelled cancelp i rpp) :=
  .seq (fun _ _ => True) (leaves_uasCancelOk cancelp i) (fun _ _ _ _ _ => trivial)
    fun _ => (leaves_sendUasResponse hj _).from

end Microsippy
