import Microsippy.Turns
import Microsippy.Notices

/-! # Callbacks that call the manager

A callback of a client transaction may drop the transaction it was called for and make new ones, one
of them in its slot. What the return of the callback does to those.
-/

namespace Microsippy

set_option autoImplicit false

/-! ## What a release takes -/

/-- The hash, the due time, and the request, branch and From tag with their bytes. -/
def Txi.outbound (tp : Txi) : UInt32 × UInt64 × List (Str × Bytes) :=
  (tp.id.hash, tp.next_send_at_ms,
    [tp.raw, tp.id.branch, tp.id.from_tag].map fun s => (s, tp.scratch.first.readAt s.off s.l))

/-- What a release leaves of it. -/
def releasedOutbound : UInt32 × UInt64 × List (Str × Bytes) :=
  (0, TIME_NONE, List.replicate 3 (Str.null, []))

theorem releaseOutbound_outbound {tp tp' : Txi} {r : Except TmError Unit}
    (hRun : releaseOutbound.run tp = some (r, tp')) : tp'.outbound = releasedOutbound := by
  simp only [releaseOutbound, Op.run_bind, Op.run_get, Op.andThen_ok] at hRun
  cases hBack : (rollbackTo tp.checkpoint).run tp with
  | none =>
    rw [hBack] at hRun
    cases hRun
  | some out =>
    obtain ⟨r₁, t⟩ := out
    obtain rfl := rollbackTo_succeeds hBack
    rw [hBack, Op.andThen_ok, Op.run_modify] at hRun
    obtain ⟨-, rfl⟩ := Prod.mk.inj (Option.some.inj hRun)
    rfl

/-- Every transaction that was there and still is keeps its number and what a release would take. -/
structure Tm.Spares (tm tm' : Tm) : Prop where
  serial : tm.serial ≤ tm'.serial
  spared : ∀ k, (tm'.tx k).active = true → (tm'.tx k).born < tm.serial →
    (tm.tx k).active = true ∧ (tm.tx k).born = (tm'.tx k).born ∧
      (tm'.tx k).outbound = (tm.tx k).outbound

instance : IsPreorder Tm Tm.Spares where
  refl _ := ⟨Nat.le_refl _, fun _ hActive _ => ⟨hActive, rfl, rfl⟩⟩
  trans _ _ _ h h' := by
    refine ⟨Nat.le_trans h.serial h'.serial, fun k hActive hBorn => ?_⟩
    obtain ⟨hActive', hBorn', hSame'⟩ := h'.spared k hActive (Nat.lt_of_lt_of_le hBorn h.serial)
    obtain ⟨hActive'', hBorn'', hSame''⟩ := h.spared k hActive' (hBorn' ▸ hBorn)
    exact ⟨hActive'', hBorn''.trans hBorn', hSame'.trans hSame''⟩

/-! ## A slot that is being filled -/

/-- Only slot `i` has changed, and what is active in it has a number from `n` on. -/
structure Tm.Fills (i n : Nat) (tm tm' : Tm) : Prop where
  serial : tm.serial ≤ tm'.serial
  others : ∀ k, k ≠ i → tm'.tx k = tm.tx k
  young : n ≤ tm.serial → ((tm.tx i).active = true → n ≤ (tm.tx i).born) →
    (tm'.tx i).active = true → n ≤ (tm'.tx i).born

variable {i n : Nat}

instance : IsPreorder Tm (Tm.Fills i n) where
  refl _ := ⟨Nat.le_refl _, fun _ _ => rfl, fun _ h => h⟩
  trans _ _ _ h h' :=
    ⟨Nat.le_trans h.serial h'.serial, fun k hk => (h'.others k hk).trans (h.others k hk),
      fun hn hYoung => h'.young (Nat.le_trans hn h.serial) (h.young hn hYoung)⟩

theorem Tm.fills_set {tm : Tm} {tp : Txi} (h : n ≤ tm.serial →
    ((tm.tx i).active = true → n ≤ (tm.tx i).born) → tp.active = true → n ≤ tp.born) :
    tm.Fills i n (tm.set i tp) := by
  refine ⟨Nat.le_refl _, fun k hk => Tm.set_other _ _ hk, ?_⟩
  rwa [Tm.set_same]

theorem fills_onSlot {α : Type} {x : Tm → TxM α}
    (hx : ∀ tm, Op.Keeps (Txi.SameLife ⟨True, True⟩) (x tm)) : Op.Keeps (Tm.Fills i n) (onSlot i x) := by
  intro tm r tm' hRun
  obtain ⟨tp, hPart, rfl⟩ := onSlot_some hRun
  have hLife := (hx tm _ _ _ hPart).life
  exact Tm.fills_set fun _ hYoung hActive => hLife.born ▸ hYoung (hLife.active.symm.trans hActive)

theorem fills_filling {α : Type} {x : Tm → TxM α}
    (hx : ∀ tm, Op.Keeps (Txi.SameLife ⟨True, True⟩) (x tm)) : Op.Keeps (Tm.Fills i n) (filling i x) := by
  intro tm r tm' hRun
  obtain ⟨tp, hPart, rfl⟩ := onSlot_some hRun
  simp only [Op.run, Op.cleanup] at hPart
  split at hPart
  · cases hPart
  · obtain ⟨-, rfl⟩ := Prod.mk.inj (Option.some.inj hPart)
    exact Tm.fills_set fun _ _ hActive => by cases hActive
  · rename_i a tp₁ hFirst
    obtain ⟨-, rfl⟩ := Prod.mk.inj (Option.some.inj hPart)
    have hLife := (hx tm _ _ _ hFirst).life
    exact Tm.fills_set fun _ hYoung hActive => hLife.born ▸ hYoung (hLife.active.symm.trans hActive)

theorem Tm.fills_activate (tm : Tm) (created_for : Nat) : tm.Fills i n (tm.activate i created_for) := by
  refine ⟨Nat.le_succ _, fun k hk => Tm.set_other _ _ hk, fun hn _ _ => ?_⟩
  rw [Tm.activate, Tm.set_same]
  exact hn

theorem fills_leaking {α : Type} {x : TmM α} (hx : Op.Keeps (Tm.Fills i n) x) :
    Op.Keeps (Tm.Fills i n) (leaking i x) := by
  refine .cleanup hx fun tm => ⟨Nat.le_refl _, fun k hk => Tm.set_other _ _ hk, fun _ _ hActive => ?_⟩
  rw [Tm.set_same] at hActive
  cases hActive

theorem fills_activateUacSlot (state : TxState) (cseq : UInt32) (target local_ : Addr)
    (callbacks : UacCallbacks) (timers : TimerPolicy) :
    Op.Keeps (Tm.Fills i n) (activateUacSlot i state cseq target local_ callbacks timers) := by
  refine .bind (.modify fun tm => tm.fills_activate 0) fun _ => ?_
  intro tm r tm' hRun
  obtain ⟨tp, hPart, rfl⟩ := onSlot_some hRun
  obtain ⟨-, rfl⟩ := Prod.mk.inj (Option.some.inj hPart)
  exact Tm.fills_set fun _ hYoung => hYoung

theorem fills_activateUasSlot (tid : Tid) (timers : Tm → Option TimerPolicy) :
    Op.Keeps (Tm.Fills i n) (activateUasSlot i tid timers) := by
  refine .bind (.modify fun tm => tm.fills_activate 0) fun _ => ?_
  intro tm r tm' hRun
  obtain ⟨tp, hPart, rfl⟩ := onSlot_some hRun
  rw [Op.run_bind, Op.run_modify, Op.andThen_ok, Op.run_modify] at hPart
  obtain ⟨-, rfl⟩ := Prod.mk.inj (Option.some.inj hPart)
  exact Tm.fills_set fun _ hYoung => hYoung

/-! ## Making and dropping -/

theorem Tm.spares_drop (tm : Tm) (index : Nat) : tm.Spares (tm.drop index) := by
  refine ⟨Nat.le_of_eq (tm.drop_frame index).2.1.symm, fun k hActive _ => ?_⟩
  rw [Tm.drop_tx] at hActive ⊢
  split at hActive
  · cases hActive
  · rename_i hOther
    rw [if_neg hOther]
    rw [Tm.dropLinked] at hActive ⊢
    split at hActive
    · rename_i hLinked
      rw [if_pos hLinked]
      exact ⟨hActive, rfl, rfl⟩
    · rename_i hFree
      rw [if_neg hFree]
      exact ⟨hActive, rfl, rfl⟩

theorem Tm.spares_reset (tm : Tm) (i : Nat) : tm.Spares (tm.set i (tm.tx i).reset) := by
  refine ⟨Nat.le_refl _, fun k hActive _ => ?_⟩
  cases Nat.decEq k i with
  | isTrue hk =>
    subst hk
    rw [Tm.set_same] at hActive
    cases hActive
  | isFalse hk =>
    rw [Tm.set_other _ _ hk] at hActive ⊢
    exact ⟨hActive, rfl, rfl⟩

theorem spares_dropTransaction (index : Nat) : Op.Keeps Tm.Spares (dropTransaction index) := by
  intro tm r tm' hRun
  simp only [dropTransaction, Op.run_bind, Op.run_get, Op.andThen_ok, Op.run_require,
    Op.run_modify] at hRun
  split at hRun
  · split at hRun
    · obtain ⟨-, rfl⟩ := Prod.mk.inj (Option.some.inj hRun)
      exact tm.spares_drop index
    · obtain ⟨-, rfl⟩ := Prod.mk.inj (Option.some.inj hRun)
      exact Std.Refl.refl _
  · obtain ⟨-, rfl⟩ := Prod.mk.inj (Option.some.inj hRun)
    exact Std.Refl.refl _

theorem spares_allocSlot : Op.Keeps Tm.Spares allocSlot := by
  intro tm r tm' hRun
  rcases allocSlot_cases tm with ⟨k, -, -, hIs⟩ | ⟨-, ⟨v, -, hIs⟩ | ⟨-, hIs⟩⟩ <;>
    rw [hIs] at hRun <;> obtain ⟨-, rfl⟩ := Prod.mk.inj (Option.some.inj hRun)
  · exact tm.spares_reset k
  · exact IsTrans.trans _ _ _ (tm.spares_drop v) ((tm.drop v).spares_reset v)
  · exact Std.Refl.refl _

theorem allocSlot_inactive {tm tm' : Tm} (hRun : allocSlot.run tm = some (.ok i, tm')) :
    (tm'.tx i).active = false := by
  rcases allocSlot_cases tm with ⟨k, -, -, hIs⟩ | ⟨-, ⟨v, -, hIs⟩ | ⟨-, hIs⟩⟩ <;> rw [hIs] at hRun
  · obtain ⟨hi, rfl⟩ := Prod.mk.inj (Option.some.inj hRun)
    obtain rfl := Except.ok.inj hi
    rw [Tm.set_same]
    rfl
  · obtain ⟨hi, rfl⟩ := Prod.mk.inj (Option.some.inj hRun)
    obtain rfl := Except.ok.inj hi
    rw [Tm.set_same]
    rfl
  · cases hRun

/-- What fills the slot it allocates spares all others. -/
theorem spares_filled {α : Type} {x : Nat → TmM α} (hx : ∀ i n, Op.Keeps (Tm.Fills i n) (x i)) :
    Op.Keeps Tm.Spares (allocSlot >>= x) := by
  intro tm r tm' hRun
  rw [Op.run_bind] at hRun
  cases hAlloc : allocSlot.run tm with
  | none =>
    rw [hAlloc] at hRun
    cases hRun
  | some out =>
    obtain ⟨r₁, t⟩ := out
    have hFirst := spares_allocSlot _ _ _ hAlloc
    rw [hAlloc] at hRun
    cases r₁ with
    | error e =>
      obtain ⟨-, rfl⟩ := Prod.mk.inj (Option.some.inj hRun)
      exact hFirst
    | ok i =>
      have hFills := hx i t.serial _ _ _ hRun
      have hFree := allocSlot_inactive hAlloc
      refine ⟨Nat.le_trans hFirst.serial hFills.serial, fun k hActive hBorn => ?_⟩
      cases Nat.decEq k i with
      | isTrue hk =>
        subst hk
        have hYoung := hFills.young (Nat.le_refl _)
          (fun h => Bool.noConfusion (hFree.symm.trans h)) hActive
        exact absurd (Nat.lt_of_lt_of_le hBorn hFirst.serial) (Nat.not_lt.mpr hYoung)
      | isFalse hk =>
        rw [hFills.others k hk] at hActive hBorn ⊢
        exact hFirst.spared k hActive hBorn

theorem spares_newUacTr (tpp : NewUacTrParams) : Op.Keeps Tm.Spares (newUacTr tpp) := by
  refine .bind (acts_lookupUacMethod _ _) fun mdp => spares_filled fun i n => ?_
  refine .bind (fills_filling fun _ => life_quiet (quiet_fillUacTr _ _ _ _)) fun addrs => ?_
  refine .bind (fills_activateUacSlot _ _ _ _ _ _) fun _ => ?_
  exact .bind (fills_leaking (fills_onSlot fun _ =>
    life_quiet (quiet_buildRequest _ _ _))) fun _ => .pure _

theorem spares_newInDialogTransaction (tpp : NewInDialogParams) :
    Op.Keeps Tm.Spares (newInDialogTransaction tpp) := by
  refine .bind (.assert _) fun _ => .bind (.require _ _) fun _ => ?_
  refine .bind (acts_lookupUacMethod _ _) fun mdp => spares_filled fun i n => ?_
  refine .bind (.failWith (fills_filling fun _ =>
    life_quiet (quiet_fillInDialog _ _ _)) _) fun addrs => ?_
  refine .bind (fills_activateUacSlot _ _ _ _ _ _) fun _ => ?_
  exact .bind (fills_leaking (.failWith (fills_onSlot fun _ =>
    life_quiet (quiet_prepareIds _ _)) _)) fun _ => .pure _

theorem spares_newUasTr (tpp : NewUasTrParams) : Op.Keeps Tm.Spares (newUasTr tpp) := by
  refine .bind .get fun tm => .bind (.demand _) fun line => ?_
  obtain ⟨method, ruri⟩ := line
  refine .bind (.require _ _) fun _ => .bind (.orElse _ _) fun tid => .bind (.require _ _) fun _ => ?_
  refine spares_filled fun i n => .bind (fills_filling fun _ => life_fillUasTr _ _ _ _ _ _) fun _ => ?_
  exact .bind (fills_activateUasSlot _ _) fun _ => .pure _

/-! ## Under a callback -/

/-- A call that makes a transaction or drops one. -/
def Call.makesOrDrops : Call → Bool
  | .newUacTr _ => true
  | .newUasTr _ => true
  | .newInDialogTransaction _ => true
  | .dropTransaction _ => true
  | _ => false

/-- The slot of the client transaction a callback was called for. -/
def Frame.clientSlot : Frame → Option Nat
  | .response index _ _ => some index
  | .uacTimeout index _ _ => some index
  | _ => none

/-- Whether the return of a callback releases whatever is in the slot. -/
def Frame.Releases (tm : Tm) : Frame → Prop
  | .response index code _ =>
    200 ≤ code.1 ∧ (tm.tx index).state ≠ .CALLING ∧ ¬ (tm.tx index).waitsForInviteAck
  | .uacTimeout index rest _ => rest = .cleaned ∨ rest = .timer ∧ (tm.tx index).state ≠ .CALLING
  | _ => False

/-- Whether a frame is that of a response callback. -/
def Frame.isResponse : Frame → Bool
  | .response _ _ _ => true
  | _ => false

theorem Frame.not_releases_of_calling {tm : Tm} {f : Frame} {index : Nat} (hResponse : f.isResponse = true)
    (hSlot : f.clientSlot = some index) (hCalling : (tm.tx index).state = .CALLING) :
    ¬ f.Releases tm := by
  cases f with
  | response j code born =>
    obtain rfl := Option.some.inj hSlot
    exact fun h => h.2.1 hCalling
  | _ => cases hResponse

/-- A slot has a transaction made since number `n` was to be given. -/
def Tm.Made (tm : Tm) (n k : Nat) : Prop := (tm.tx k).active = true ∧ n ≤ (tm.tx k).born

namespace World

variable {w v u : World}

theorem step_spares {c : Call} (hCall : c.makesOrDrops = true) (hStep : w.step (.call c) = some v) :
    w.tm.Spares v.tm ∧ v.stack = w.stack := by
  have hTm : ∀ {α : Type} {x : TmM α} {f : Except TmError α → Except TmError Answer},
      Op.Keeps Tm.Spares x → w.after (onTm x) (fun r w => w.reply (f r)) = some v →
        w.tm.Spares v.tm ∧ v.stack = w.stack := by
    intro α x f hx hAfter
    obtain ⟨r, s, hRun, rfl⟩ := afterReply_some hAfter
    obtain ⟨tm, hPart, rfl⟩ := Op.zoom_some.mp hRun
    exact ⟨hx _ _ _ hPart, rfl⟩
  simp only [step] at hStep
  split at hStep
  · cases c with
    | newUacTr tpp => exact hTm (spares_newUacTr tpp) hStep
    | newUasTr tpp => exact hTm (spares_newUasTr tpp) hStep
    | newInDialogTransaction tpp => exact hTm (spares_newInDialogTransaction tpp) hStep
    | dropTransaction index => exact hTm (spares_dropTransaction index) hStep
    | _ => cases hCall
  · cases hStep

theorem calls_spare {cs : List Call} (hCalls : ∀ c ∈ cs, c.makesOrDrops = true)
    (hRun : Transition.exec step w (cs.map .call) = some v) :
    w.tm.Spares v.tm ∧ v.stack = w.stack := by
  induction cs generalizing w with
  | nil =>
    obtain rfl := Option.some.inj hRun
    exact ⟨Std.Refl.refl _, rfl⟩
  | cons c cs ih =>
    obtain ⟨t, hStep, hRest⟩ := Option.bind_eq_some_iff.mp hRun
    have hFirst := step_spares (hCalls c List.mem_cons_self) hStep
    have hLast := ih (fun c hc => hCalls c (List.mem_cons_of_mem _ hc)) hRest
    exact ⟨IsTrans.trans _ _ _ hFirst.1 hLast.1, hLast.2.trans hFirst.2⟩

theorem uacResponseDone_some {tm tm' : Tm} {index : Nat} {code : StatusCode} (born : Nat)
    {r : Except TmError Unit} (hRun : (uacResponseDone index code).run tm = some (r, tm')) :
    Frame.Releases tm (.response index code born) ∧
        (∃ r' tp, releaseOutbound.run (tm.tx index) = some (r', tp) ∧ tm' = tm.set index tp) ∨
      ¬ Frame.Releases tm (.response index code born) ∧ tm' = tm := by
  simp only [uacResponseDone, Op.run_bind, Op.run_get, Op.andThen_ok] at hRun
  split at hRun
  · rename_i hReleases
    obtain ⟨tp, hPart, rfl⟩ := onSlot_some hRun
    exact Or.inl ⟨hReleases, r, tp, hPart, rfl⟩
  · rename_i hNot
    obtain ⟨-, rfl⟩ := Prod.mk.inj (Option.some.inj hRun)
    exact Or.inr ⟨hNot, rfl⟩

theorem uacTimedOut_released {tm tm' : Tm} {index : Nat} {rest : TimeoutRest} (born : Nat)
    {r : Except TmError Unit} (hRun : (uacTimedOut index rest).run tm = some (r, tm')) :
    Frame.Releases tm (.uacTimeout index rest born) ∧
        (∃ r' tp, releaseOutbound.run (tm.tx index) = some (r', tp) ∧ tm' = tm.set index tp) ∨
      ¬ Frame.Releases tm (.uacTimeout index rest born) ∧ tm' = tm := by
  simp only [uacTimedOut, Op.run_bind, Op.run_get, Op.andThen_ok] at hRun
  cases rest with
  | expired =>
    obtain ⟨-, rfl⟩ := Prod.mk.inj (Option.some.inj hRun)
    exact Or.inr ⟨by simp [Frame.Releases], rfl⟩
  | cleaned =>
    obtain ⟨tp, hPart, rfl⟩ := onSlot_some hRun
    exact Or.inl ⟨Or.inl rfl, r, tp, hPart, rfl⟩
  | timer =>
    simp only at hRun
    split at hRun
    · rename_i hState
      obtain ⟨tp, hPart, rfl⟩ := onSlot_some hRun
      exact Or.inl ⟨Or.inr ⟨rfl, hState⟩, r, tp, hPart, rfl⟩
    · rename_i hState
      obtain ⟨-, rfl⟩ := Prod.mk.inj (Option.some.inj hRun)
      refine Or.inr ⟨?_, rfl⟩
      rintro (h | ⟨-, h⟩)
      · cases h
      · exact hState h

/-- What the return of a client transaction's callback does to the slots. -/
theorem ret_some {f : Frame} {stack : List Frame} {index : Nat} {rval : Int}
    (hStack : v.stack = f :: stack) (hSlot : f.clientSlot = some index)
    (hRet : v.step (.ret rval) = some u) :
    f.Releases v.tm ∧ (∃ r' tp, releaseOutbound.run (v.tm.tx index) = some (r', tp) ∧ u.tm = v.tm.set index tp) ∨
      ¬ f.Releases v.tm ∧ u.tm = v.tm := by
  simp only [step, hStack] at hRet
  cases f with
  | response j code born =>
    obtain rfl := Option.some.inj hSlot
    obtain ⟨r, s, hRun, rfl⟩ := afterReply_some hRet
    obtain ⟨tm, hPart, rfl⟩ := Op.zoom_some.mp hRun
    exact uacResponseDone_some born hPart
  | uacTimeout j rest born =>
    obtain rfl := Option.some.inj hSlot
    simp only [resume] at hRet
    split at hRet
    · simp only [uacTimeoutDone, World.after] at hRet
      split at hRet
      · cases hRet
      · rename_i r s hRun
        obtain ⟨tm, hPart, rfl⟩ := Op.zoom_some.mp hRun
        have hDone := uacTimedOut_released born hPart
        cases r with
        | error e =>
          obtain rfl := Option.some.inj hRet
          exact hDone
        | ok a =>
          obtain rfl := Option.some.inj hRet
          exact hDone
    · cases hRet
  | _ => cases hSlot

end World

/-! ## A slot filled again -/

/-- An OPTIONS request answered, its response callback under way. -/
def optionsTold : List Label := toldOptions ++ (optionsAnswered 1 "z9hG4bK-0-1" 1).take 4

/-- The transaction dropped, and one for another request made in its slot. -/
def replaced (method : Method) : List Call :=
  [.dropTransaction 0, .newUacTr (Sample.request method)]

/-- A new transaction in slot 0 when the callback returns. -/
theorem exists_returned {method : Method} {test : World → World → Bool}
    (h : (Sample.after 1 optionsTold).any (fun w => (w.stack.head?.bind Frame.clientSlot == some 0) &&
      (Transition.exec World.step w ((replaced method).map .call)).any fun v => (v.tm.tx 0).active &&
        decide (w.tm.serial ≤ (v.tm.tx 0).born) && (v.step (.ret 0)).any (test v)) = true) :
    ∃ (w v u : World) (f : Frame) (stack : List Frame), w.Reachable ∧ w.stack = f :: stack ∧
      f.clientSlot = some 0 ∧ Transition.exec World.step w ((replaced method).map .call) = some v ∧
        v.step (.ret 0) = some u ∧ v.tm.Made w.tm.serial 0 ∧ test v u = true := by
  obtain ⟨w, hReachable, hTest⟩ := Sample.exists_of_after h
  simp only [Bool.and_eq_true, Option.any_eq_true, beq_iff_eq, decide_eq_true_eq,
    Option.bind_eq_some_iff, List.head?_eq_some_iff] at hTest
  obtain ⟨⟨f, ⟨stack, hStack⟩, hSlot⟩, v, hRun, ⟨hActive, hBorn⟩, u, hRet, hIs⟩ := hTest
  exact ⟨w, v, u, f, stack, hReachable, hStack, hSlot, hRun, hRet, ⟨hActive, hBorn⟩, hIs⟩

theorem replaced_makesOrDrops (method : Method) : ∀ c ∈ replaced method, c.makesOrDrops = true := by
  intro c hc
  rcases List.mem_cons.mp hc with rfl | hc
  · rfl
  · obtain rfl := List.mem_singleton.mp hc
    rfl

end Microsippy
