import Microsippy.Untouched
import Microsippy.Deadlines
import Microsippy.TurnAsserts

/-! # When the next run is due

The report of `usipy_sip_tm_run` is accumulated over the turns of the slots. It covers the slots the run
has passed, as long as nothing that happens under the run changes what they wait for.
-/

namespace Microsippy

set_option autoImplicit false

/-! ## What is left of a turn -/

/-- A report on the first `k` slots, if the frame is a run with a report. -/
def Frame.Reports (tm : Tm) (k : Nat) : Frame → Prop
  | .run _ i (some o) => i = k ∧ LeastDue (tm.DueBefore k) o.next_run_at_ms
  | _ => True

/-- A frame that is there already, with what it reports so far. -/
def Frame.SameReport (old : List Frame) : Frame → Prop
  | .run now i (some o) => ∃ o', .run now i (some o') ∈ old ∧ o'.next_run_at_ms = o.next_run_at_ms
  | _ => True

theorem Frame.sameReport_mem {old : List Frame} {f : Frame} (h : f ∈ old) : f.SameReport old := by
  cases f with
  | run now i outp =>
    cases outp with
    | none => trivial
    | some o => exact ⟨o, h, rfl⟩
  | _ => trivial

namespace World

variable {w v : World}

/-- Every report under way is one of some earlier frames, as far as it goes. -/
def SameReports (old : List Frame) (v : World) : Prop := ∀ f ∈ v.stack, f.SameReport old

theorem sameReports_of_stack {old : List Frame} (h : v.stack = old) : v.SameReports old :=
  fun _ hf => Frame.sameReport_mem (h ▸ hf)

theorem SameReports.push {old : List Frame} {f : Frame} (h : w.SameReports old) (hf : f.SameReport old) :
    (w.push f).SameReports old := by
  intro g hg
  cases List.mem_cons.mp hg with
  | inl hIs => exact hIs ▸ hf
  | inr hOld => exact h g hOld

/-- A turn of slot `i` after which the run goes on with the slots up to it in its report, or ends. -/
def Turned (w : World) (i : Nat) (v : World) : Prop :=
  ∀ f ∈ v.stack, f.SameReport w.stack ∨ f.Reports v.tm (i + 1)

theorem turned_finish {u : World} {i : Nat} {r : Except TmError Unit} {outp : Option RunOut}
    (hStack : u.stack = w.stack) (h : u.finish r outp = some v) : w.Turned i v := by
  obtain rfl := Option.some.inj h
  exact fun f hf => Or.inl (Frame.sameReport_mem (hStack ▸ hf))

theorem SameReports.turned {now : UInt64} {i : Nat} {o : RunOut}
    (h : v.SameReports (.run now (i + 1) (some o) :: w.stack))
    (hLeast : LeastDue (v.tm.DueBefore (i + 1)) o.next_run_at_ms) : w.Turned i v := by
  intro f hf
  have hSame := h f hf
  cases f with
  | run t k outp =>
    cases outp with
    | none => exact Or.inl trivial
    | some o' =>
      obtain ⟨o₁, hMem, hNext⟩ := hSame
      cases List.mem_cons.mp hMem with
      | inl hIs =>
        obtain ⟨-, rfl, hSome⟩ := Frame.run.inj hIs
        obtain rfl := Option.some.inj hSome
        exact Or.inr ⟨rfl, hNext ▸ hLeast⟩
      | inr hOld => exact Or.inl ⟨o₁, hOld, hNext⟩
  | _ => exact Or.inl trivial

theorem turned_push {now : UInt64} {i : Nat} {o : RunOut}
    (hStack : v.stack = .run now (i + 1) (some o) :: w.stack)
    (hLeast : LeastDue (v.tm.DueBefore (i + 1)) o.next_run_at_ms) : w.Turned i v :=
  (sameReports_of_stack hStack).turned hLeast

/-- A client's turn that comes to a timeout, but for the deadline of an INVITE that is not abandoned. -/
theorem uacTimeout_sameReports {now : UInt64} {i : Nat} {o : RunOut} {rest : TimeoutRest} {told : Bool}
    {timeout_id : TimeoutId} {u : World} (hStack : u.stack = w.stack) (hRest : rest ≠ .expired)
    (h : (if told then
        some (((u.emit (.timeout i (u.tm.tx i).born timeout_id)).push (.run now (i + 1) (some o))).push
          (.uacTimeout i rest (u.tm.tx i).born))
      else u.uacTimeoutDone now (i + 1) i rest (some o)) = some v) :
    v.SameReports (.run now (i + 1) (some o) :: w.stack) ∧
      ∃ tp, v.tm = u.tm.set i tp ∧ tp.state = (u.tm.tx i).state := by
  have hOld : u.SameReports (.run now (i + 1) (some o) :: w.stack) :=
    fun f hf => Frame.sameReport_mem (List.mem_cons_of_mem _ (hStack ▸ hf))
  cases told with
  | true =>
    obtain rfl := Option.some.inj h
    refine ⟨SameReports.push (f := .uacTimeout i rest _) (SameReports.push ?_ ?_) trivial,
      u.tm.tx i, (Tm.set_self _ _).symm, rfl⟩
    · exact hOld
    · exact Frame.sameReport_mem List.mem_cons_self
  | false =>
    rw [if_neg Bool.false_ne_true, uacTimeoutDone] at h
    obtain ⟨r, tm, hRun, h⟩ := after_onTm h
    obtain ⟨tp, rfl, hState⟩ := uacTimedOut_some hRun
    cases r with
    | error e =>
      obtain rfl := Option.some.inj h
      exact ⟨hOld, tp, rfl, hState⟩
    | ok _ =>
      rw [if_neg hRest] at h
      obtain rfl := Option.some.inj h
      exact ⟨hOld.push ⟨o, List.mem_cons_self, rfl⟩, tp, rfl, hState⟩

end World

/-! ## A client's turn -/

/-- A transaction waits for the same as before, or for less. -/
def Tm.WaitsLess (i : Nat) (tm tm' : Tm) : Prop :=
  ((tm.tx i).state = .TERMINATED → (tm'.tx i).state = .TERMINATED) ∧
    ∀ j t, (tm'.tx j).WaitsFor t → (tm.tx j).WaitsFor t

instance (i : Nat) : IsPreorder Tm (Tm.WaitsLess i) where
  refl _ := ⟨id, fun _ _ => id⟩
  trans _ _ _ h h' := ⟨h'.1 ∘ h.1, fun j t => h.2 j t ∘ h'.2 j t⟩

/-- A slot that is over, or that waits for the same. -/
theorem Tm.waitsLess_set {tm : Tm} {i k : Nat} {tp : Txi}
    (h : tp.state = .TERMINATED ∨ tp.state = (tm.tx k).state ∧ ∀ t, tp.WaitsFor t → (tm.tx k).WaitsFor t) :
    tm.WaitsLess i (tm.set k tp) := by
  refine ⟨fun hState => ?_, fun j t hWaits => ?_⟩
  · by_cases hk : i = k
    · subst hk
      rw [Tm.set_same]
      exact h.elim id fun hSame => hSame.1.trans hState
    · rwa [Tm.set_other _ _ hk]
  · by_cases hk : j = k
    · subst hk
      rw [Tm.set_same] at hWaits
      exact h.elim (fun hState => absurd (Or.inl hState) hWaits.live) fun hSame => hSame.2 t hWaits
    · rwa [Tm.set_other _ _ hk] at hWaits

theorem waitsLess_txTerminateChild (i fuel p : Nat) :
    Op.Keeps (Tm.WaitsLess i) (txTerminateChild fuel p) := by
  induction fuel generalizing p with
  | zero => exact .assert _
  | succ fuel ih =>
    refine .bind .get fun tm => ?_
    cases (tm.tx p).child_index with
    | none => exact .pure _
    | some c =>
      refine .bind (.assert _) fun _ => .bind (.ite (fun _ => .bind (ih c) fun _ => ?_)
        fun _ => .pure _) fun _ => ?_
      · intro tm r tm' hRun
        obtain ⟨tp, hPart, rfl⟩ := onSlot_some hRun
        rw [Op.run_bind, modCtl, Op.run_modify, Op.andThen_ok] at hPart
        obtain ⟨scratch, rfl⟩ := releaseOutbound_some hPart
        exact Tm.waitsLess_set (Or.inl rfl)
      · intro tm r tm' hRun
        obtain ⟨tp, hPart, rfl⟩ := onSlot_some hRun
        rw [modCtl, Op.run_modify] at hPart
        obtain ⟨-, rfl⟩ := Prod.mk.inj (Option.some.inj hPart)
        exact Tm.waitsLess_set (Or.inr ⟨rfl, fun t h => ⟨h.active, h.live, h.set, h.due⟩⟩)

/-- What a slot waits for is not told by its link to a child. -/
theorem Tm.Leaves.waitsFor {j : Nat} {tm tm' : Tm} (h : tm.Leaves j tm') (t : UInt64) :
    (tm'.tx j).WaitsFor t ↔ (tm.tx j).WaitsFor t := by
  have hBare : ∀ tp : Txi, tp.bare.WaitsFor t ↔ tp.WaitsFor t := fun tp =>
    ⟨fun ⟨a, b, c, d⟩ => ⟨a, b, c, d⟩, fun ⟨a, b, c, d⟩ => ⟨a, b, c, d⟩⟩
  rw [← hBare, ← hBare (tm.tx j), show (tm'.tx j).bare = (tm.tx j).bare from h]

/-- A timer that fires ends its transaction and those behind it. -/
theorem uacTimerFired_waits {tm tm' : Tm} {i : Nat} {c : Ctl} {r : Except TmError UacTurn}
    (hGoesOn : (tm.tx i).GoesOn c)
    (hRun : (uacTimerFired i).run (tm.set i { tm.tx i with toCtl := c }) = some (r, tm'))
    (hChain : ∀ j < i, tm.Chain i j → ∀ t, ¬ (tm.tx j).WaitsFor t) :
    (tm'.tx i).state = .TERMINATED ∧ ∀ j < i, ∀ t, (tm'.tx j).WaitsFor t ↔ (tm.tx j).WaitsFor t := by
  have hLess : (tm.set i { tm.tx i with toCtl := c.markTerminated.clearTimer }).WaitsLess i tm' := by
    rw [uacTimerFired, Op.run_bind] at hRun
    have hEnd : (onSlot i fun _ => modCtl fun c => c.markTerminated.clearTimer).run
        (tm.set i { tm.tx i with toCtl := c }) =
          some (.ok (), tm.set i { tm.tx i with toCtl := c.markTerminated.clearTimer }) := by
      simp only [onSlot, Op.run, modCtl, Op.modify, Tm.set_same, Tm.set_set]
    rw [hEnd, Op.andThen_ok] at hRun
    exact Op.Keeps.bind .get (fun _ => .bind (waitsLess_txTerminateChild _ _ _) fun _ =>
      .bind .get fun _ => .pure _) _ _ _ hRun
  have hState : (tm'.tx i).state = .TERMINATED := hLess.1 (by rw [Tm.set_same]; rfl)
  refine ⟨hState, fun j hj t => ?_⟩
  have hOther := Nat.ne_of_lt hj
  have hFewer : (tm'.tx j).WaitsFor t → (tm.tx j).WaitsFor t := fun hWaits => by
    have hWas := hLess.2 j t hWaits
    rwa [Tm.set_other _ _ hOther] at hWas
  refine ⟨hFewer, fun hWaits => ?_⟩
  have hNot : ¬ (tm.set i { tm.tx i with toCtl := c }).Chain i j := fun h =>
    hChain j hj (Tm.Chain.of_set _ hGoesOn.child hGoesOn.active h) t hWaits
  have hLeaves := leaves_uacTimerFired hOther _ _ _ hNot hRun
  refine (hLeaves.waitsFor t).mpr ?_
  rwa [Tm.set_other _ _ hOther]

namespace World

theorem uacVisit_turned {w v : World} {now : UInt64} {i : Nat} {o : RunOut} {rval : Int}
    (hRole : (w.tm.tx i).role = .UAC) (hActive : (w.tm.tx i).active = true)
    (hLeast : LeastDue (w.tm.DueBefore i) o.next_run_at_ms)
    (hExpires : (w.tm.tx i).Expires now → (w.tm.tx i).state = .TERMINATED ∨ (w.tm.tx i).terminated = true)
    (hIn : i < w.tm.max_transactions)
    (hBye : ∀ b, (w.tm.tx i).child_index = some b → w.tm.Sends now i → b < i ∧ (w.tm.tx b).Queued)
    (hChain : ¬ ((w.tm.tx i).state = .TERMINATED ∨ (w.tm.tx i).terminated = true) →
      (w.tm.tx i).timerDue now = true → ∀ j < i, w.tm.Chain i j → ∀ t, ¬ (w.tm.tx j).WaitsFor t)
    (hStep : w.uacVisit now i (some o) rval = some v) : w.Turned i v := by
  obtain ⟨r, tm, hRun, hRest⟩ := after_onTm hStep
  cases uacRun_turns hRun with
  | failed e tm' _ => exact turned_finish (u := { w with tm }) rfl hRest
  | retired hRetired =>
    obtain rfl := Option.some.inj hRest
    refine turned_push rfl (hLeast.passed_idle (fun _ _ => rfl) fun u hWaits => ?_)
    exact hWaits.live (hRetired.imp_right fun h => ⟨hRole, h⟩)
  | expired told timeout_id tm' hLive h => exact absurd (hExpires h) hLive
  | ended rest told timeout_id tp hNot hState =>
    simp only [if_neg hNot] at hRest
    obtain ⟨hReports, tp', hTm, hSame⟩ := uacTimeout_sameReports
      (u := { w with tm := w.tm.set i tp }) rfl hNot hRest
    refine hReports.turned ?_
    simp only [Tm.set_set, Tm.set_same] at hTm hSame
    rw [hTm]
    refine hLeast.passed_idle (fun j hj => Tm.set_other _ _ (Nat.ne_of_lt hj)) fun u hWaits => ?_
    rw [Tm.set_same] at hWaits
    exact hWaits.live (Or.inl (hSame.trans hState))
  | orphaned told c tm' hLive hDue hGoesOn hFired =>
    have hNot : TimeoutRest.timer ≠ .expired := by decide
    simp only [if_neg hNot] at hRest
    obtain ⟨hReports, tp, hTm, hSame⟩ := uacTimeout_sameReports (u := { w with tm }) rfl hNot hRest
    obtain ⟨hEnded, hOthers⟩ := uacTimerFired_waits hGoesOn hFired (hChain hLive hDue)
    refine hReports.turned (hLeast.congr fun t => ?_)
    rw [hTm, Tm.dueBefore_succ]
    constructor
    · rintro (⟨j, hj, hWaits⟩ | hWaits)
      · rw [Tm.set_other _ _ (Nat.ne_of_lt hj)] at hWaits
        exact ⟨j, hj, (hOthers j hj t).mp hWaits⟩
      · rw [Tm.set_same] at hWaits
        exact absurd (Or.inl (hSame.trans hEnded)) hWaits.live
    · rintro ⟨j, hj, hWaits⟩
      refine Or.inl ⟨j, hj, ?_⟩
      rw [Tm.set_other _ _ (Nat.ne_of_lt hj)]
      exact (hOthers j hj t).mpr hWaits
  | idle c hLive hArm hRests =>
    have hGoesOn := Ctl.armCleanup_goesOn hArm
    obtain rfl := Option.some.inj hRest
    have hNew := hLeast.considerUac (hGoesOn.active.trans hActive) (hGoesOn.live hLive)
      (hGoesOn.role.trans hRole)
    have hReport : LeastDue ((w.tm.set i { w.tm.tx i with toCtl := c }).DueBefore (i + 1)) _ :=
      .passed (fun j hj => Tm.set_other _ _ (Nat.ne_of_lt hj)) (by rw [Tm.set_same]; exact hNew)
    rw [Tm.set_same]
    exact turned_push rfl hReport
  | send tp hLive hEarly hSending hPending hGoesOn =>
    simp only at hRest
    split at hRest
    · exact turned_finish (u := { w with tm := w.tm.set i tp }.send i rval) rfl hRest
    · obtain ⟨r₂, tm₂, hSent, hRest⟩ := after_onTm hRest
      obtain ⟨c, hSentOn, hCase⟩ := uacSent_some hSent
      have hOn : (w.tm.tx i).GoesOn c :=
        IsTrans.trans _ _ _ hGoesOn (by simpa only [send, emit, Tm.set_same] using hSentOn)
      simp only [send, emit, Tm.set_set, Tm.set_same] at hCase
      rcases hCase with ⟨b, hChild, rfl, rfl⟩ | ⟨rfl, rfl⟩
      · have hSends : w.tm.Sends now i := ⟨hIn, hActive, fun h => hLive (Or.inl h), hEarly, hSending,
          fun _ => Bool.eq_false_iff.mpr fun h => hLive (Or.inr h), fun _ => hPending⟩
        obtain ⟨hb, hQueued⟩ := hBye b (hOn.child.symm.trans hChild) hSends
        have hQueued' : ((w.tm.set i { tp with toCtl := c }).tx b).Queued := by
          rwa [Tm.set_other _ _ (Nat.ne_of_lt hb)]
        have hSelf : (((w.tm.set i { tp with toCtl := c }).armBye i b now).tx i).toCtl =
            { c with child_index := none } := by
          rw [Tm.armBye, Tm.set_same, Tm.set_other _ _ (Nat.ne_of_gt hb), Tm.set_same]
        have hOff : (w.tm.tx i).GoesOn c → ¬ { c with child_index := none }.Retired := fun h => h.live hLive
        have hNew := LeastDue.considerUac (c := { c with child_index := none })
          (o := { o.consider now with nsent := (o.consider now).nsent + 1 })
          (hOn.active.trans hActive) (hOff hOn) (hOn.role.trans hRole) (hLeast.consider now)
        have hReport : LeastDue (((w.tm.set i { tp with toCtl := c }).armBye i b now).DueBefore (i + 1))
            ({ o.consider now with nsent := (o.consider now).nsent + 1 }.considerUac
              { c with child_index := none }).next_run_at_ms := by
          refine hNew.congr fun u => ?_
          rw [Tm.dueBefore_succ, Tm.dueBefore_armBye hb hQueued', hSelf,
            Tm.dueBefore_congr fun j hj => Tm.set_other _ _ (Nat.ne_of_lt hj)]
        simp only [if_true, hSelf] at hRest
        obtain rfl := Option.some.inj hRest
        exact turned_push rfl hReport
      · simp only [Bool.false_eq_true, if_false, Tm.set_same] at hRest
        obtain rfl := Option.some.inj hRest
        have hNew := LeastDue.considerUac (o := { o with nsent := o.nsent + 1 })
          (hOn.active.trans hActive) (hOn.live hLive) (hOn.role.trans hRole) hLeast
        have hReport : LeastDue ((w.tm.set i { tp with toCtl := c }).DueBefore (i + 1)) _ :=
          .passed (fun j hj => Tm.set_other _ _ (Nat.ne_of_lt hj)) (by rw [Tm.set_same]; exact hNew)
        exact turned_push rfl hReport

end World

namespace World

/-! ## What a report is carried through -/

/-- Whatever comes of a state, every report under way is one of some earlier frames. -/
def Quietly (old : List Frame) (x : Option World) : Prop := ∀ v, x = some v → v.SameReports old

variable {w : World} {old : List Frame}

theorem SameReports.quietly (h : w.SameReports old) : Quietly old (some w) := by
  rintro v hv
  obtain rfl := Option.some.inj hv
  exact h

theorem quietly_none : Quietly old none := fun _ hv => by cases hv

theorem quietly_after {α : Type} {x : SysM α} {k : Except TmError α → World → Option World}
    (hk : ∀ r s, Quietly old (k r { w with toSys := s })) : Quietly old (w.after x k) := by
  intro v hv
  obtain ⟨r, s, -, hv⟩ := after_some hv
  exact hk r s v hv

theorem SameReports.reply (h : w.SameReports old) (r : Except TmError Answer) :
    Quietly old (w.reply r) := .quietly h

theorem SameReports.finish (h : w.SameReports old) (r : Except TmError Unit) (outp : Option RunOut) :
    Quietly old (w.finish r outp) := .quietly h

theorem SameReports.countTimeout (h : w.SameReports old) : Quietly old w.countTimeout := by
  intro v hv
  rw [World.countTimeout] at hv
  split at hv
  · rename_i now i outp stack hStack
    obtain rfl := Option.some.inj hv
    intro f hf
    cases List.mem_cons.mp hf with
    | inl hIs =>
      subst hIs
      have hWas := h (.run now i outp) (hStack ▸ List.mem_cons_self)
      cases outp with
      | none => trivial
      | some o => exact hWas
    | inr hOld => exact h f (hStack ▸ List.mem_cons_of_mem _ hOld)
  · cases hv

theorem SameReports.dialogGiveUp (h : w.SameReports old) (d : Nat) (handler : Bool) :
    Quietly old (w.dialogGiveUp d handler World.countTimeout) := by
  refine quietly_after fun r s => ?_
  cases handler with
  | true => exact .quietly (SameReports.push (f := .dialogHandler) h trivial)
  | false => exact SameReports.countTimeout (w := { w with toSys := s }) h

theorem SameReports.dialogTimeout (h : w.SameReports old) (d : Nat) :
    Quietly old (w.dialogTimeout d) := by
  rw [World.dialogTimeout]
  split
  · exact quietly_none
  · refine quietly_after fun r s => ?_
    have hKept : { w with toSys := s }.SameReports old := h
    split
    · exact .quietly hKept
    · exact .quietly hKept
    · exact .quietly (SameReports.push (f := .dialogNoAck d _) hKept trivial)
    · exact SameReports.dialogGiveUp hKept d _

theorem SameReports.uacTimeoutDone (h : w.SameReports old) (now : UInt64) (i index : Nat)
    (rest : TimeoutRest) {outp : Option RunOut} (hFrame : (Frame.run now i outp).SameReport old) :
    Quietly old (w.uacTimeoutDone now i index rest outp) := by
  refine quietly_after fun r s => ?_
  have hKept : { w with toSys := s }.SameReports old := h
  cases r with
  | error e => exact hKept.finish _ _
  | ok _ =>
    refine .quietly (hKept.push ?_)
    split
    · exact hFrame
    · cases outp with
      | none => trivial
      | some o => exact hFrame

/-- What follows a callback changes no report but in its count of timeouts. -/
theorem quietly_resume (w : World) (rval : Int) (f : Frame) : Quietly w.stack (w.resume rval f) := by
  have hSame : w.SameReports w.stack := sameReports_of_stack rfl
  cases f with
  | run now i outp => exact quietly_none
  | uacTimeout index rest born =>
    rw [resume]
    split
    · rename_i now i outp stack hStack
      refine SameReports.uacTimeoutDone (w := { w with stack }) ?_ _ _ _ _ ?_
      · exact fun f hf => Frame.sameReport_mem (hStack ▸ List.mem_cons_of_mem _ hf)
      · exact Frame.sameReport_mem (hStack ▸ List.mem_cons_self)
    · exact quietly_none
  | noAck => exact hSame.countTimeout
  | dialogNoAck d handler =>
    rw [resume]
    split
    · exact hSame.countTimeout
    · exact hSame.dialogGiveUp d handler
  | dialogHandler => exact hSame.countTimeout
  | response index code born =>
    exact quietly_after fun r s => SameReports.reply (w := { w with toSys := s }) hSame _
  | uasCancel index => exact hSame.reply _
  | incomingRequest tid => exact hSame.reply _

end World

namespace World

theorem quietly_uacVisit (w : World) (now : UInt64) (i : Nat) (rval : Int) :
    Quietly w.stack (w.uacVisit now i none rval) := by
  refine quietly_after fun r s => ?_
  have hKept : SameReports w.stack { w with toSys := s } := sameReports_of_stack rfl
  cases r with
  | error e => exact hKept.finish _ _
  | ok turn =>
    cases turn with
    | «over» => exact .quietly (hKept.push trivial)
    | idle => exact .quietly (hKept.push trivial)
    | timeout rest told timeout_id =>
      simp only [Option.map_none, ite_self]
      cases told with
      | true =>
        refine SameReports.quietly (SameReports.push (f := .uacTimeout i rest _)
          (SameReports.push ?_ ?_) trivial)
        · exact hKept
        · trivial
      | false => exact SameReports.uacTimeoutDone (w := { w with toSys := s }) hKept _ _ _ _ trivial
    | send =>
      simp only
      split
      · exact SameReports.finish (w := { w with toSys := s }.send i rval) hKept _ _
      · refine quietly_after fun r s => ?_
        cases r with
        | error e =>
          intro v hv
          obtain rfl := Option.some.inj hv
          exact hKept
        | ok bye => exact .quietly (SameReports.push (f := .run now (i + 1) none) hKept trivial)

theorem quietly_uasVisit (w : World) (now : UInt64) (i : Nat) (rval : Int) :
    Quietly w.stack (w.uasVisit now i none rval) := by
  refine quietly_after fun r s => ?_
  have hKept : SameReports w.stack { w with toSys := s } := sameReports_of_stack rfl
  have hNext : SameReports w.stack (({ w with toSys := s } : World).push (.run now (i + 1) none)) :=
    hKept.push trivial
  simp only
  split
  · exact hKept.finish _ _
  · exact .quietly hNext
  · split
    · exact .quietly (SameReports.push (f := .noAck) hNext trivial)
    · exact hNext.countTimeout
  · exact hNext.dialogTimeout _
  · exact .quietly hNext
  · split
    · exact SameReports.finish (w := { w with toSys := s }.send i rval) hKept _ _
    · refine quietly_after fun r s => ?_
      cases r with
      | error e =>
        intro v hv
        obtain rfl := Option.some.inj hv
        exact hKept
      | ok owner =>
        refine quietly_after fun r s => ?_
        simp only [Option.map_none]
        split
        · exact quietly_none
        · rename_i outp hReport
          obtain rfl := (uasSentReport_isNone hReport).mpr rfl
          exact .quietly (SameReports.push (f := .run now (i + 1) none) hKept trivial)

/-- A turn of a run without a report. -/
theorem quietly_visit (w : World) (now : UInt64) (i : Nat) (rval : Int) :
    Quietly w.stack (w.visit now i none rval) := by
  have hSame : SameReports w.stack w := sameReports_of_stack rfl
  rw [visit]
  split
  · exact hSame.finish _ _
  · split
    · exact .quietly (hSame.push trivial)
    · cases (w.tm.tx i).role with
      | UAC => exact quietly_uacVisit w now i rval
      | UAS => exact quietly_uasVisit w now i rval

theorem quietly_incomingResponse (w : World) (now : UInt64) (msg : Msg) (code : StatusCode) (tid : Tid) :
    Quietly w.stack (w.incomingResponse now msg code tid) := by
  refine quietly_after fun r s => ?_
  have hKept : SameReports w.stack { w with toSys := s } := sameReports_of_stack rfl
  cases r with
  | error e => exact hKept.reply _
  | ok out =>
    obtain ⟨index, told⟩ := out
    cases told with
    | true => exact .quietly (SameReports.push (f := .response index code _) hKept trivial)
    | false => exact quietly_after fun r s => SameReports.reply (w := { w with toSys := s }) hKept _

theorem quietly_incomingRequest (w : World) (now : UInt64) (msg : Msg) (method : Method) (tid : Tid) :
    Quietly w.stack (w.incomingRequest now msg method tid) := by
  refine quietly_after fun r s => ?_
  have hKept : SameReports w.stack { w with toSys := s } := sameReports_of_stack rfl
  simp only
  split
  · exact hKept.reply _
  · exact hKept.reply _
  · exact quietly_after fun r s => SameReports.reply (w := { w with toSys := s }) hKept _
  · exact hKept.reply _
  · split
    · exact .quietly (SameReports.push (f := .uasCancel _) hKept trivial)
    · exact hKept.reply _
  · exact hKept.reply _
  · exact .quietly (SameReports.push (f := .incomingRequest tid) hKept trivial)

theorem quietly_handleIncoming (w : World) (now : UInt64) (msg : Option Msg) :
    Quietly w.stack (w.handleIncoming now msg) := by
  have hSame : SameReports w.stack w := sameReports_of_stack rfl
  cases msg with
  | none => exact hSame.reply _
  | some msg =>
    rw [handleIncoming]
    split
    · exact hSame.reply _
    · exact quietly_incomingResponse w now msg _ _
    · exact quietly_incomingRequest w now msg _ _

theorem quietly_answered {α : Type} (w : World) (x : SysM α) (f : Except TmError α → Except TmError Answer) :
    Quietly w.stack (w.after x fun r u => u.reply (f r)) := by
  refine quietly_after fun r s => ?_
  exact SameReports.reply (w := { w with toSys := s }) (sameReports_of_stack rfl) _

/-- A call changes no report under way, and a run begins with an empty one. -/
theorem perform_reports {w v : World} {c : Call} (h : w.perform c = some v) :
    ∀ f ∈ v.stack, f.SameReport w.stack ∨ f.Reports v.tm 0 := by
  have hQuiet : Quietly w.stack (w.perform c) → ∀ f ∈ v.stack, f.SameReport w.stack ∨ f.Reports v.tm 0 :=
    fun hQuiet f hf => Or.inl (hQuiet v h f hf)
  cases c with
  | run now report =>
    obtain rfl := Option.some.inj h
    intro f hf
    cases List.mem_cons.mp hf with
    | inl hIs =>
      subst hIs
      cases report with
      | true =>
        refine Or.inr ⟨rfl, ⟨fun u hDue => ?_, Or.inl rfl⟩⟩
        obtain ⟨j, hj, -⟩ := hDue
        exact absurd hj (Nat.not_lt_zero j)
      | false => exact Or.inl trivial
    | inr hOld => exact Or.inl (Frame.sameReport_mem hOld)
  | handleIncoming now msg => exact hQuiet (quietly_handleIncoming w now msg)
  | newUacTr tpp => exact hQuiet (quietly_answered w _ _)
  | newUasTr tpp => exact hQuiet (quietly_answered w _ _)
  | newInDialogTransaction tpp => exact hQuiet (quietly_answered w _ _)
  | nextTransaction index payload ehp => exact hQuiet (quietly_answered w _ _)
  | cancel index => exact hQuiet (quietly_answered w _ _)
  | sendUasResponse index rpp => exact hQuiet (quietly_answered w _ _)
  | uasCancelOk cancelp index => exact hQuiet (quietly_answered w _ _)
  | uasTrCancelled cancelp index rpp => exact hQuiet (quietly_answered w _ _)
  | dropTransaction index => exact hQuiet (quietly_answered w _ _)
  | setTimerPolicy index policy => exact hQuiet (quietly_answered w _ _)
  | dialogUacCtor index msg => exact hQuiet (quietly_answered w _ _)
  | dialogUasCtor index rpp => exact hQuiet (quietly_answered w _ _)
  | dialogSetNoAckHandler d handler => exact hQuiet (quietly_answered w _ _)
  | dialogDtor d => exact hQuiet (quietly_answered w _ _)
  | dialogAcceptUasBye d index msg => exact hQuiet (quietly_answered w _ _)
  | dialogHandleUasTransaction d index msg => exact hQuiet (quietly_answered w _ _)
  | dialogEnd d cbp => exact hQuiet (quietly_answered w _ _)

end World

/-! ## A server's turn -/

theorem Ctl.startTimerL_same (now : UInt64) (c : Ctl) :
    (c.startTimerL now).active = c.active ∧ (c.startTimerL now).role = c.role ∧
      (c.startTimerL now).state = c.state ∧ (c.startTimerL now).method_type = c.method_type ∧
        (c.UasTimed → (c.startTimerL now).UasTimed) := by
  rw [Ctl.startTimerL]
  split
  · exact ⟨rfl, rfl, rfl, rfl, id⟩
  · exact ⟨rfl, rfl, rfl, rfl, id⟩

theorem Ctl.uasSent_same {p : TimerPolicy} {method : Method} {now : UInt64} {c c' : Ctl}
    (h : c.uasSent p method now = some c') : c'.active = c.active ∧ c'.role = c.role := by
  simp only [Ctl.uasSent, Ctl.uasPostSendInviteFinal, Ctl.uasPostSendFinal] at h
  split at h
  · obtain rfl := Option.some.inj h
    exact ⟨rfl, rfl⟩
  · split at h
    · split at h <;> split at h
      all_goals
        first
          | obtain rfl := Option.some.inj h
            exact ⟨rfl, rfl⟩
          | obtain ⟨ms, -, rfl⟩ := Option.map_eq_some_iff.mp h
            exact ⟨rfl, rfl⟩
    · split at h
      · split at h
        · obtain rfl := Option.some.inj h
          exact ⟨rfl, rfl⟩
        · obtain ⟨ms, -, rfl⟩ := Option.map_eq_some_iff.mp h
          exact ⟨rfl, rfl⟩
      · obtain rfl := Option.some.inj h
        exact ⟨rfl, rfl⟩

namespace World

theorem countTimeout_toSys {w v : World} (h : w.countTimeout = some v) : v.toSys = w.toSys := by
  rw [World.countTimeout] at h
  split at h
  · obtain rfl := Option.some.inj h
    rfl
  · cases h

/-- A server's turn that comes to a send. -/
theorem uasSend_turned {w v : World} {now : UInt64} {i : Nat} {o : RunOut} {rval : Int}
    (hOk : w.tm.UasOk) (hOwned : w.toSys.Owned) (hRole : (w.tm.tx i).role = .UAS)
    (hLive : (w.tm.tx i).state ≠ .TERMINATED) (hLeast : LeastDue (w.tm.DueBefore i) o.next_run_at_ms)
    (hRun : (onTm (uasRun i now)).run w.toSys = some (.ok .send, { w.toSys with
      tm := w.tm.set i { w.tm.tx i with toCtl := (w.tm.tx i).startTimerL now } }))
    (hStep : w.uasVisit now i (some o) rval = some v) : w.Turned i v := by
  obtain ⟨hActive₁, hRole₁, hState₁, hMethod₁, hTimed₁⟩ := Ctl.startTimerL_same now (w.tm.tx i).toCtl
  rw [uasVisit, World.after] at hStep
  simp only [hRun] at hStep
  split at hStep
  · exact turned_finish (u := ({ w with
      tm := w.tm.set i { w.tm.tx i with toCtl := (w.tm.tx i).startTimerL now } } :
        World).send i rval) rfl hStep
  obtain ⟨r, tm, hSent, hRest⟩ := after_onTm hStep
  obtain ⟨c, hc, rfl, rfl⟩ := uasSent_some hSent
  obtain ⟨r₃, s₃, hTold, hRest⟩ := after_some hRest
  simp only [send, emit, Tm.set_set, Tm.set_same] at hTold hc
  have hOthers : w.toSys.LeavesOthers i s₃ := by
    refine IsTrans.trans _ _ _ (fun j hj => ?_) (dialogTold_others hTold fun d hOwner dp hIs => ?_)
    · exact Tm.set_other _ _ hj
    · rw [Ctl.startTimerL_owner] at hOwner
      refine (hOwned i d hRole ?_).2 dp hIs
      split at hOwner
      · exact hOwner
      · cases hOwner
  obtain ⟨hActive₂, hRole₂⟩ := Ctl.uasSent_same hc
  have hActive : c.active = true := hActive₂.trans (hActive₁.trans (hOk i hRole).active)
  have hUas : c.role = .UAS := hRole₂.trans (hRole₁.trans hRole)
  split at hRest
  · cases hRest
  · rename_i outp hReport
    have hTimed : ((w.tm.tx i).startTimerL now).UasTimed := hTimed₁ (hOk i hRole).timed
    have hNew : ∃ o', outp = some o' ∧
        LeastDue (fun u => w.tm.DueBefore i u ∨ (s₃.tm.tx i).WaitsFor u) o'.next_run_at_ms := by
      cases hAccepted : decide (((w.tm.tx i).startTimerL now).state = .ACCEPTED) with
      | true =>
        have hState := of_decide_eq_true hAccepted
        have hSame : c.state = .ACCEPTED ∧ c.UasTimed := by
          simp only [Ctl.uasSent] at hc
          rw [if_pos (by exact hState)] at hc
          obtain rfl := Option.some.inj hc
          exact ⟨hState, hTimed⟩
        obtain ⟨at_ms, hKept⟩ : ∃ at_ms, (s₃.tm.tx i).toCtl = { c with next_send_at_ms := at_ms } := by
          rw [if_pos hState] at hTold
          cases hOwner : ((w.tm.tx i).startTimerL now).uas_owner with
          | none =>
            rw [hOwner] at hTold
            obtain ⟨-, rfl⟩ := Prod.mk.inj (Option.some.inj hTold)
            exact ⟨c.next_send_at_ms, by simp only [Tm.set_same]⟩
          | some d =>
            rw [hOwner] at hTold
            obtain ⟨at_ms, hIs⟩ := reschedules_dialogUasSent d now _ _ _ hTold i
            exact ⟨at_ms, by rw [hIs]; simp only [Tm.set_same]⟩
        rw [hKept] at hReport ⊢
        exact LeastDue.uasAccepted (o := { o with nsent := o.nsent + 1 })
          (c := { c with next_send_at_ms := at_ms }) hActive hUas hSame.2 hSame.1 hLeast hReport
      | false =>
        have hOther := of_decide_eq_false hAccepted
        rw [if_neg hOther] at hTold
        obtain ⟨-, rfl⟩ := Prod.mk.inj (Option.some.inj hTold)
        have hMethod : (w.tm.tx i).cache.method_type = ((w.tm.tx i).startTimerL now).method_type :=
          (hOk i hRole).same.trans hMethod₁.symm
        simp only [Tm.set_same] at hReport ⊢
        rw [hMethod] at hc hReport
        refine LeastDue.uasSent (o := { o with nsent := o.nsent + 1 }) ?_ ?_ hTimed ?_
          hOther hc hLeast hReport
        · exact hActive₁.trans (hOk i hRole).active
        · exact hRole₁.trans hRole
        · rwa [hState₁]
    obtain ⟨o', rfl, hNew⟩ := hNew
    obtain rfl := Option.some.inj hRest
    have hReport' : LeastDue (s₃.tm.DueBefore (i + 1)) o'.next_run_at_ms :=
      .passed (fun j hj => hOthers j (Nat.ne_of_lt hj)) hNew
    exact turned_push rfl hReport'

theorem uasVisit_turned {w v : World} {now : UInt64} {i : Nat} {o : RunOut} {rval : Int}
    (hOk : w.tm.UasOk) (hHeld : w.toSys.Held) (hRole : (w.tm.tx i).role = .UAS)
    (hLeast : LeastDue (w.tm.DueBefore i) o.next_run_at_ms)
    (hRests : (w.tm.tx i).state = .TERMINATED → (w.tm.tx i).next_send_at_ms = TIME_NONE)
    (hBye : ∀ j ≤ i, ¬ w.toSys.ByeTakes now i j)
    (hStep : w.uasVisit now i (some o) rval = some v) : w.Turned i v := by
  obtain ⟨r, tm, hRun, hRest⟩ := after_onTm hStep
  rcases uasRun_turns hRun with ⟨hDue, rfl, rfl⟩ | ⟨-, -, rfl, rfl⟩ | ⟨hLive, rfl, rfl⟩
  · have hEnded : LeastDue ((w.tm.set i { w.tm.tx i with
        toCtl := (w.tm.tx i).uasMarkTerminated }).DueBefore (i + 1)) o.next_run_at_ms := by
      refine hLeast.passed_idle (fun j hj => Tm.set_other _ _ (Nat.ne_of_lt hj)) fun u hWaits => ?_
      rw [Tm.set_same] at hWaits
      exact hWaits.live (Or.inl rfl)
    have hPushed : SameReports (.run now (i + 1) (some o) :: w.stack)
        (({ w with tm := w.tm.set i { w.tm.tx i with
          toCtl := (w.tm.tx i).uasMarkTerminated } } : World).push (.run now (i + 1) (some o))) :=
      sameReports_of_stack rfl
    cases hType : (w.tm.tx i).timer.type with
    | H =>
      simp only [hType] at hRest
      split at hRest
      · obtain rfl := Option.some.inj hRest
        exact SameReports.turned (SameReports.push (f := .noAck) hPushed trivial) hEnded
      · refine SameReports.turned (hPushed.countTimeout v hRest) ?_
        rw [countTimeout_toSys hRest]
        exact hEnded
    | L =>
      simp only [hType] at hRest
      cases hOwner : (w.tm.tx i).uas_owner with
      | none =>
        simp only [hOwner] at hRest
        obtain rfl := Option.some.inj hRest
        exact turned_push rfl hEnded
      | some d =>
        simp only [hOwner] at hRest
        refine SameReports.turned (hPushed.dialogTimeout d v hRest) (hEnded.congr fun t => ?_)
        have hAll : ∀ j ≤ i, ∀ t, (v.tm.tx j).WaitsFor t ↔ ((w.tm.set i { w.tm.tx i with
            toCtl := (w.tm.tx i).uasMarkTerminated }).tx j).WaitsFor t := fun j hj t =>
          (timerL_leaves (some o) hHeld hRole hDue hType hOwner (hBye j hj) v hRest).slot.waitsFor t
        constructor
        · rintro ⟨j, hj, hWaits⟩
          exact ⟨j, hj, (hAll j (Nat.le_of_lt_succ hj) t).mp hWaits⟩
        · rintro ⟨j, hj, hWaits⟩
          exact ⟨j, hj, (hAll j (Nat.le_of_lt_succ hj) t).mpr hWaits⟩
    | _ =>
      simp only [hType] at hRest
      obtain rfl := Option.some.inj hRest
      exact turned_push rfl hEnded
  · obtain rfl := Option.some.inj hRest
    cases hState : decide ((w.tm.tx i).state = .TERMINATED) with
    | true =>
      have hState := of_decide_eq_true hState
      have hTimer : (w.tm.tx i).timer.type = .NONE := by
        have hTimed := (hOk i hRole).timed
        rwa [Ctl.UasTimed, hState] at hTimed
      have hSame : LeastDue (w.tm.DueBefore (i + 1)) (o.considerUas (w.tm.tx i).toCtl).next_run_at_ms := by
        rw [RunOut.considerUas_nothing (hRests hState) hTimer]
        exact hLeast.passed_idle (fun _ _ => rfl) fun u hWaits => hWaits.live (Or.inl hState)
      exact turned_push rfl hSame
    | false =>
      have hLive : ¬ (w.tm.tx i).Retired := fun h =>
        of_decide_eq_false hState ((Ctl.retired_uas hRole).mp h)
      have hNew : LeastDue (w.tm.DueBefore (i + 1)) (o.considerUas (w.tm.tx i).toCtl).next_run_at_ms :=
        .passed (fun _ _ => rfl) (hLeast.considerUas (hOk i hRole).active hLive hRole)
      exact turned_push rfl hNew
  · exact uasSend_turned hOk hHeld.owned hRole hLive hLeast (Op.zoom_some.mpr ⟨_, hRun, rfl⟩) hStep

end World

namespace World

/-! ## Runs -/

/-- A step after which the report of a run under way may be wrong. -/
inductive Misses (w : World) (l : Label) : Prop
  /-- Something that happens under a callback reaches a slot the run has passed. -/
  | callback (f : Frame) (stack : List Frame) (now : UInt64) (i j : Nat) (o : RunOut)
      (hStack : w.stack = f :: stack) (hRun : .run now i (some o) ∈ stack) (hPassed : j < i)
      (h : w.Reaches j l)
  /-- A callback returns, and what is to be sent in a slot the run has passed is given back. -/
  | givesBack (f : Frame) (stack : List Frame) (now : UInt64) (i j : Nat) (o : RunOut)
      (hStack : w.stack = f :: stack) (hRun : .run now i (some o) ∈ stack) (hPassed : j < i)
      (h : w.GivesBack j l) (hWaits : (w.tm.tx j).WaitsFor (w.tm.tx j).next_send_at_ms)
  /-- The timer ends a transaction and one behind it, which waits for something and has been passed. -/
  | child (now : UInt64) (i j : Nat) (o : RunOut) (stack : List Frame) (rval : Int) (t : UInt64)
      (hStack : w.stack = .run now i (some o) :: stack) (hl : l = .turn rval)
      (hIn : i < w.tm.max_transactions) (hActive : (w.tm.tx i).active = true)
      (hRole : (w.tm.tx i).role = .UAC)
      (hLive : ¬ ((w.tm.tx i).state = .TERMINATED ∨ (w.tm.tx i).terminated = true))
      (hDue : (w.tm.tx i).timerDue now = true) (hChain : w.tm.Chain i j) (hPassed : j < i)
      (hWaits : (w.tm.tx j).WaitsFor t)
  /-- Timer L makes the BYE of a call given up in a slot that has been passed, or in its own. -/
  | gaveUp (now : UInt64) (i j : Nat) (o : RunOut) (stack : List Frame) (rval : Int)
      (hStack : w.stack = .run now i (some o) :: stack) (hl : l = .turn rval)
      (hIn : i < w.tm.max_transactions) (hActive : (w.tm.tx i).active = true)
      (hRole : (w.tm.tx i).role = .UAS) (hTakes : w.toSys.ByeTakes now i j) (hPassed : j ≤ i)
  /-- The deadline of an INVITE that is not abandoned has passed: the time of the run is reported. -/
  | expires (now : UInt64) (i : Nat) (o : RunOut) (stack : List Frame) (rval : Int)
      (hStack : w.stack = .run now i (some o) :: stack) (hl : l = .turn rval)
      (hIn : i < w.tm.max_transactions) (hActive : (w.tm.tx i).active = true)
      (hRole : (w.tm.tx i).role = .UAC)
      (hLive : ¬ ((w.tm.tx i).state = .TERMINATED ∨ (w.tm.tx i).terminated = true))
      (hExpires : (w.tm.tx i).Expires now)
  /-- A request is sent that another waits behind, which still has its turn or waits for more. -/
  | bye (now : UInt64) (i b : Nat) (o : RunOut) (stack : List Frame) (rval : Int)
      (hStack : w.stack = .run now i (some o) :: stack) (hl : l = .turn rval)
      (hRole : (w.tm.tx i).role = .UAC) (hSends : w.tm.Sends now i)
      (hChild : (w.tm.tx i).child_index = some b) (hLater : ¬ (b < i ∧ (w.tm.tx b).Queued))
  /-- A terminated server transaction is to send: it is reported and never sent for. -/
  | rests (now : UInt64) (i : Nat) (o : RunOut) (stack : List Frame) (rval : Int)
      (hStack : w.stack = .run now i (some o) :: stack) (hl : l = .turn rval)
      (hIn : i < w.tm.max_transactions) (hActive : (w.tm.tx i).active = true)
      (hRole : (w.tm.tx i).role = .UAS) (hState : (w.tm.tx i).state = .TERMINATED)
      (hNext : (w.tm.tx i).next_send_at_ms ≠ TIME_NONE)
  /-- The run ends with a request that is to be sent and cannot be built, or with a transaction whose turn
  violates an assertion. -/
  | stuck (now : UInt64) (i j : Nat) (o : RunOut) (stack : List Frame) (rval : Int)
      (hStack : w.stack = .run now i (some o) :: stack) (hl : l = .turn rval)
      (hEnd : w.tm.max_transactions ≤ i) (hIn : j < w.tm.max_transactions)
      (hRole : (w.tm.tx j).role = .UAC) (h : w.tm.Unbuildable now j ∨ w.tm.UacStops now j)

/-- Every report under way covers the slots its run has passed. -/
def Covered (w : World) : Prop := ∀ f ∈ w.stack, ∃ k ≤ w.tm.max_transactions, f.Reports w.tm k

theorem Covered.carry {w v : World} {old : List Frame} (h : w.Covered)
    (hMax : v.tm.max_transactions = w.tm.max_transactions) (hOld : ∀ f ∈ old, f ∈ w.stack)
    (hSame : ∀ now i o, Frame.run now i (some o) ∈ old → ∀ t, v.tm.DueBefore i t ↔ w.tm.DueBefore i t)
    {f : Frame} (hf : f.SameReport old) : ∃ k ≤ v.tm.max_transactions, f.Reports v.tm k := by
  cases f with
  | run now i outp =>
    cases outp with
    | none => exact ⟨0, Nat.zero_le _, trivial⟩
    | some o =>
      obtain ⟨o', hMem, hNext⟩ := hf
      obtain ⟨k, hk, rfl, hLeast⟩ := h _ (hOld _ hMem)
      exact ⟨i, hMax ▸ hk, rfl, hNext ▸ hLeast.congr (hSame now i o' hMem)⟩
  | _ => exact ⟨0, Nat.zero_le _, trivial⟩

/-- What a slot waits for changes only in a step that reaches it, or that gives back what it is to send. -/
theorem step_waits {w v : World} {j : Nat} {l : Label} (hHeld : w.toSys.Held) (hNot : ¬ w.Reaches j l)
    (hKeeps : w.GivesBack j l → ¬ (w.tm.tx j).WaitsFor (w.tm.tx j).next_send_at_ms)
    (hStep : w.step l = some v) (t : UInt64) : (v.tm.tx j).WaitsFor t ↔ (w.tm.tx j).WaitsFor t := by
  by_cases hBack : w.GivesBack j l
  · obtain ⟨f, stack, rval, hStack, rfl, hSlot, hReleases⟩ := id hBack
    obtain ⟨-, r, tp, hReleased, hTm⟩ | ⟨hNone, -⟩ := ret_some hStack hSlot hStep
    · obtain ⟨scratch, rfl⟩ := releaseOutbound_some hReleased
      rw [hTm, Tm.set_same]
      constructor
      · rintro ⟨hActive, hLive, hSet, hDue⟩
        exact ⟨hActive, hLive, hSet, Or.inr (hDue.resolve_left hSet)⟩
      · intro hWaits
        obtain ⟨hActive, hLive, hSet, hDue⟩ := hWaits
        refine ⟨hActive, hLive, hSet, Or.inr (hDue.resolve_left fun hIs => ?_)⟩
        exact hKeeps hBack (hIs ▸ ⟨hActive, hLive, hSet, hDue⟩)
    · exact absurd hReleases hNone
  · exact (step_leaves hHeld hNot hBack hStep).slot.waitsFor t

theorem visit_turned {w v : World} {now : UInt64} {i : Nat} {o : RunOut} {stack : List Frame} {rval : Int}
    (hReachable : w.Reachable) (hStack : w.stack = .run now i (some o) :: stack)
    (hMiss : ¬ w.Misses (.turn rval)) (hLeast : LeastDue (w.tm.DueBefore i) o.next_run_at_ms)
    (hStep : w.step (.turn rval) = some v) :
    (∀ f ∈ v.stack, f.SameReport stack) ∨
      i < w.tm.max_transactions ∧ ∀ f ∈ v.stack, f.SameReport stack ∨ f.Reports v.tm (i + 1) := by
  have hVisit := hStep
  simp only [step, hStack, visit] at hVisit
  split at hVisit
  · obtain rfl := Option.some.inj hVisit
    exact Or.inl fun f hf => Frame.sameReport_mem hf
  rename_i hIn
  have hIn := Nat.not_le.mp hIn
  refine Or.inr ⟨hIn, ?_⟩
  cases hActive : (w.tm.tx i).active with
  | false =>
    simp only [hActive, Bool.not_false, if_true] at hVisit
    obtain rfl := Option.some.inj hVisit
    refine turned_push (w := { w with stack }) rfl (hLeast.passed_idle (fun _ _ => rfl) fun u hWaits => ?_)
    exact Bool.noConfusion (hActive.symm.trans hWaits.active)
  | true =>
    simp only [hActive, Bool.not_true, Bool.false_eq_true, if_false] at hVisit
    cases hRole : (w.tm.tx i).role with
    | UAC =>
      simp only [hRole] at hVisit
      refine uacVisit_turned (w := { w with stack }) hRole hActive hLeast (fun hExpires => ?_) hIn
        (fun b hChild hSends => ?_) (fun hLive hDue j hj hChain t hWaits => hMiss
        (.child now i j o stack rval t
          hStack rfl hIn hActive hRole hLive hDue hChain hj hWaits)) hVisit
      · by_contra hLive
        exact hMiss (.expires now i o stack rval hStack rfl hIn hActive hRole hLive hExpires)
      · by_contra hLater
        exact hMiss (.bye now i b o stack rval hStack rfl hRole hSends hChild hLater)
    | UAS =>
      simp only [hRole] at hVisit
      refine uasVisit_turned (w := { w with stack }) hReachable.slots.1 hReachable.held hRole hLeast
        (fun hState => ?_) (fun j hj hTakes => hMiss (.gaveUp now i j o stack rval
        hStack rfl hIn hActive hRole
          hTakes hj)) hVisit
      by_contra hNext
      exact hMiss (.rests now i o stack rval hStack rfl hIn hActive hRole hState hNext)

theorem step_covered {w v : World} {l : Label} (hReachable : w.Reachable) (hCovered : w.Covered)
    (hMiss : ¬ w.Misses l) (hStep : w.step l = some v) : v.Covered := by
  have hMax : v.tm.max_transactions = w.tm.max_transactions :=
    (step_moves hReachable.slots.1 hStep).max
  have hUnder : ∀ f stack, w.stack = f :: stack → ∀ now i o, Frame.run now i (some o) ∈ stack →
      ∀ t, v.tm.DueBefore i t ↔ w.tm.DueBefore i t := by
    intro f stack hStack now i o hRun t
    have hSame : ∀ j < i, (v.tm.tx j).WaitsFor t ↔ (w.tm.tx j).WaitsFor t := fun j hj =>
      step_waits hReachable.held (fun h => hMiss (.callback f stack now i j o hStack hRun hj h))
        (fun h hWaits => hMiss (.givesBack f stack now i j o hStack hRun hj h hWaits)) hStep t
    exact exists_congr fun j => and_congr_right (hSame j)
  have hRest : ∀ f stack, w.stack = f :: stack → ∀ g : Frame, g.SameReport stack →
      ∃ k ≤ v.tm.max_transactions, g.Reports v.tm k := fun f stack hStack g hg =>
    hCovered.carry hMax (fun g hg => hStack ▸ List.mem_cons_of_mem _ hg) (hUnder f stack hStack) hg
  intro g hg
  cases l with
  | call c =>
    simp only [step] at hStep
    split at hStep
    · rename_i hTurn
      rcases perform_reports hStep g hg with hSame | hNew
      · refine hCovered.carry hMax (fun _ h => h) (fun now i o hRun => ?_) hSame
        cases hStack : w.stack with
        | nil =>
          rw [hStack] at hRun
          cases hRun
        | cons f stack =>
          refine hUnder f stack hStack now i o ?_
          rw [hStack] at hRun
          refine (List.mem_cons.mp hRun).resolve_left fun hIs => ?_
          rw [appTurn, hStack, ← hIs] at hTurn
          cases hTurn
      · exact ⟨0, Nat.zero_le _, hNew⟩
    · cases hStep
  | turn rval =>
    have hTurn := hStep
    simp only [step] at hTurn
    split at hTurn
    · rename_i now i outp stack hStack
      cases outp with
      | none => exact hRest _ stack hStack g (quietly_visit { w with stack } now i rval v hTurn g hg)
      | some o =>
        obtain ⟨k, hk, rfl, hLeast⟩ := hCovered _ (hStack ▸ List.mem_cons_self)
        rcases visit_turned hReachable hStack hMiss hLeast hStep with hSame | ⟨hIn, hTurned⟩
        · exact hRest _ stack hStack g (hSame g hg)
        · rcases hTurned g hg with hSame | hNew
          · exact hRest _ stack hStack g hSame
          · exact ⟨i + 1, hMax ▸ hIn, hNew⟩
    · cases hTurn
  | ret rval =>
    have hRet := hStep
    simp only [step] at hRet
    split at hRet
    · cases hRet
    · rename_i f stack hStack
      exact hRest f stack hStack g (quietly_resume { w with stack } rval f v hRet g hg)

theorem ReachableBy.covered {w : World} (h : ReachableBy (fun w l => ¬ w.Misses l) w) : w.Covered := by
  obtain ⟨p, tm, hCtor, hRun⟩ := h
  induction hRun with
  | refl => exact fun f hf => by cases hf
  | snoc hFirst hMiss hStep ih =>
    exact step_covered ⟨p, tm, hCtor, hFirst.mono fun _ _ _ => trivial⟩ ih hMiss hStep

end World

/-- A turn of the slot comes to a timeout or a send. -/
def Tm.Stirs (now : UInt64) (j : Nat) (tm : Tm) : Prop :=
  match (tm.tx j).role with
  | .UAC => ∃ turn tm', (uacRun j now).run tm = some (.ok turn, tm') ∧ turn ≠ .over ∧ turn ≠ .idle
  | .UAS => ∃ turn tm', (uasRun j now).run tm = some (.ok turn, tm') ∧ turn ≠ .idle

theorem Ctl.WaitsFor.uacStirs {tm tm' : Tm} {now t : UInt64} {j : Nat} {r : Except TmError UacTurn}
    (h : (tm.tx j).WaitsFor t) (hPast : t ≤ now) (hRole : (tm.tx j).role = .UAC)
    (hBuilds : ¬ tm.Unbuildable now j) (hRun : (uacRun j now).run tm = some (r, tm')) :
    ∃ turn, r = .ok turn ∧ turn ≠ .over ∧ turn ≠ .idle := by
  cases uacRun_turns hRun with
  | failed e tm' hFails => exact absurd hFails hBuilds
  | retired hRetired => exact absurd (hRetired.imp_right fun hStopped => ⟨hRole, hStopped⟩) h.live
  | idle c hLive hArm hRests => exact absurd ((h.armCleanup hArm).isDue hPast) hRests
  | _ => exact ⟨_, rfl, fun h => (by cases h), fun h => (by cases h)⟩

theorem Ctl.WaitsFor.uasStirs {tm tm' : Tm} {now t : UInt64} {j : Nat} {r : Except TmError UasTurn}
    (h : (tm.tx j).WaitsFor t) (hPast : t ≤ now) (hRole : (tm.tx j).role = .UAS)
    (hRun : (uasRun j now).run tm = some (r, tm')) : ∃ turn, r = .ok turn ∧ turn ≠ .idle := by
  rcases uasRun_turns hRun with ⟨-, rfl, -⟩ | ⟨hEarly, hRests, -, -⟩ | ⟨-, rfl, -⟩
  · exact ⟨_, rfl, fun h => (by cases h)⟩
  · rcases h.isDue hPast with ⟨hUac, -⟩ | hDue | hSending
    · rw [hRole] at hUac
      cases hUac
    · exact Bool.noConfusion (hEarly.symm.trans hDue)
    · cases hRests with
      | inl hState => exact absurd (Or.inl hState) h.live
      | inr hNothing => exact Bool.noConfusion (hSending.symm.trans hNothing)
  · exact ⟨_, rfl, fun h => (by cases h)⟩

/-- What waits for a time that has passed does not wait any more. -/
theorem Ctl.WaitsFor.stirs {tm : Tm} {now t : UInt64} {j : Nat} (hFit : tm.Fit) (h : (tm.tx j).WaitsFor t)
    (hPast : t ≤ now) (hGoes : (tm.tx j).role = .UAC → ¬ (tm.Unbuildable now j ∨ tm.UacStops now j)) :
    tm.Stirs now j := by
  rw [Tm.Stirs]
  cases hRole : (tm.tx j).role with
  | UAC =>
    obtain ⟨hBuilds, hSpared⟩ := not_or.mp (hGoes hRole)
    have hSome : (uacRun j now).run tm ≠ none := uacRun_ne_none hFit h.active hRole hSpared
    obtain ⟨⟨r, tm'⟩, hRun⟩ := Option.ne_none_iff_exists'.mp hSome
    obtain ⟨turn, rfl, hMore⟩ := h.uacStirs hPast hRole hBuilds hRun
    exact ⟨turn, tm', hRun, hMore⟩
  | UAS =>
    have hSome : (uasRun j now).run tm ≠ none := uasRun_ne_none
    obtain ⟨⟨r, tm'⟩, hRun⟩ := Option.ne_none_iff_exists'.mp hSome
    obtain ⟨turn, rfl, hMore⟩ := h.uasStirs hPast hRole hRun
    exact ⟨turn, tm', hRun, hMore⟩

namespace World

/-- The end of a run. -/
theorem step_end {w : World} {now : UInt64} {i : Nat} {o : RunOut} {stack : List Frame} (rval : Int)
    (hStack : w.stack = .run now i (some o) :: stack) (hEnd : w.tm.max_transactions ≤ i) :
    w.step (.turn rval) =
      some (({ w with stack } : World).emit (.reply (.ok (.run (some { o with error := none }))))) := by
  simp only [step, hStack, visit, hEnd, if_true]
  rfl

end World

/-- A run at a time before a slot's turn, with what it has to report so far. -/
def Frame.isReport (now : UInt64) (i : Nat) (next_run_at_ms : UInt64) : Frame → Bool
  | .run t k (some o) => t == now && k == i && o.next_run_at_ms == next_run_at_ms
  | _ => false

theorem Frame.stack_of_isReport {stack : List Frame} {now next_run_at_ms : UInt64} {i : Nat}
    (h : stack.head?.any (Frame.isReport now i next_run_at_ms) = true) :
    ∃ o rest, stack = .run now i (some o) :: rest ∧ o.next_run_at_ms = next_run_at_ms := by
  obtain ⟨f, hHead, hIs⟩ := (Option.any_eq_true _ _).mp h
  obtain ⟨rest, rfl⟩ := List.head?_eq_some_iff.mp hHead
  cases f with
  | run t k outp =>
    cases outp with
    | none => cases hIs
    | some o =>
      simp only [Frame.isReport, Bool.and_eq_true, beq_iff_eq] at hIs
      obtain ⟨⟨rfl, rfl⟩, hNext⟩ := hIs
      exact ⟨o, rest, rfl, hNext⟩
  | _ => cases hIs

/-- A slot whose turn can go on without a timeout, for a client, or the end of a run with nothing due and no
INVITE. -/
def Frame.isPlain (tm : Tm) : Frame → Bool
  | .run now i _ =>
    (decide (i < tm.max_transactions) || (List.range tm.max_transactions).all fun j =>
      (tm.tx j).notSending now && !(tm.tx j).timerDue now && (tm.tx j).invite.isNone) &&
      (tm.tx i).role == .UAC && !(tm.tx i).timerDue now && !(tm.tx i).inviteExpired now &&
      (tm.tx i).child_index == none
  | _ => true

/-- The turn of a transaction with nothing due that is no INVITE's. -/
theorem not_uacStops {tm : Tm} {now : UInt64} {j : Nat} (hQuiet : (tm.tx j).notSending now = true)
    (hEarly : (tm.tx j).timerDue now = false) (hNone : (tm.tx j).invite = none) : ¬ tm.UacStops now j := by
  intro hStops
  cases hStops with
  | guard hLive hGuards hLong =>
    rcases hGuards with hCleanup | ⟨⟨-, hExpired⟩, -⟩
    · simp only [Ctl.cleanupDue, hNone, Bool.and_eq_true] at hCleanup
      exact absurd hCleanup.2 (by cases (tm.tx j).state <;> decide)
    · simp only [Ctl.inviteExpired, hNone] at hExpired
      cases hExpired
  | circle h hDue hEndless => exact Bool.noConfusion (hEarly.symm.trans hDue)
  | unbuilt h hRaw hUri => exact Bool.noConfusion (hQuiet.symm.trans h.sending)

/-- Whether nothing but a plain turn of a run is under way. -/
def plainTurns (w : World) (_ : Label) : Bool :=
  decide (w.stack.length ≤ 1) && w.stack.all (Frame.isPlain w.tm)

theorem not_misses_of_plainTurns {w : World} {l : Label} (h : plainTurns w l = true) : ¬ w.Misses l := by
  rw [plainTurns, Bool.and_eq_true, decide_eq_true_eq] at h
  obtain ⟨hOne, hPlain⟩ := h
  have hTurn : ∀ now i o stack, w.stack = .run now i (some o) :: stack →
      (i < w.tm.max_transactions ∨ ∀ j < w.tm.max_transactions, (w.tm.tx j).notSending now = true ∧
        (w.tm.tx j).timerDue now = false ∧ (w.tm.tx j).invite = none) ∧
        (w.tm.tx i).role = .UAC ∧ (w.tm.tx i).timerDue now = false ∧
          (w.tm.tx i).inviteExpired now = false ∧ (w.tm.tx i).child_index = none := by
    intro now i o stack hStack
    rw [hStack, List.all_cons, Bool.and_eq_true] at hPlain
    simpa only [Frame.isPlain, Bool.and_eq_true, Bool.or_eq_true, decide_eq_true_eq,
      List.all_eq_true, List.mem_range, beq_iff_eq, Bool.not_eq_true', Option.isNone_iff_eq_none,
      and_assoc] using hPlain.1
  have hUnder : ∀ f stack, w.stack = f :: stack → ∀ g, g ∉ stack := by
    intro f stack hStack g hIn
    rw [hStack, List.length_cons] at hOne
    rw [List.length_eq_zero_iff.mp (Nat.le_zero.mp (Nat.le_of_succ_le_succ hOne))] at hIn
    cases hIn
  intro hMiss
  cases hMiss with
  | callback f stack now i j o hStack hRun hPassed h => exact hUnder f stack hStack _ hRun
  | givesBack f stack now i j o hStack hRun hPassed h hWaits => exact hUnder f stack hStack _ hRun
  | child now i j o stack rval t hStack hl hIn hActive hRole hLive hDue hChain hPassed hWaits =>
    exact Bool.noConfusion ((hTurn now i o stack hStack).2.2.1.symm.trans hDue)
  | gaveUp now i j o stack rval hStack hl hIn hActive hRole hTakes hPassed =>
    rw [(hTurn now i o stack hStack).2.1] at hRole
    cases hRole
  | expires now i o stack rval hStack hl hIn hActive hRole hLive hExpires =>
    exact Bool.noConfusion ((hTurn now i o stack hStack).2.2.2.1.symm.trans hExpires.2)
  | bye now i b o stack rval hStack hl hRole hSends hChild hLater =>
    rw [(hTurn now i o stack hStack).2.2.2.2] at hChild
    cases hChild
  | rests now i o stack rval hStack hl hIn hActive hRole hState hNext =>
    rw [(hTurn now i o stack hStack).2.1] at hRole
    cases hRole
  | stuck now i j o stack rval hStack hl hEnd hIn hRole h =>
    rcases (hTurn now i o stack hStack).1 with hBefore | hNothing
    · exact absurd hBefore (Nat.not_lt.mpr hEnd)
    · obtain ⟨hQuiet, hEarly, hNone⟩ := hNothing j hIn
      cases h with
      | inl hStuck => exact Bool.noConfusion (hStuck.1.symm.trans hQuiet)
      | inr hStops => exact not_uacStops hQuiet hEarly hNone hStops

/-- The OPTIONS request comes again after Timer J. -/
def optionsLate : List Label :=
  sentOptions ++ [.call (.run 40000 true), .turn 0, .turn 0,
    .call (.handleIncoming 50000 (some (optionsTo "<sip:b@h>"))), .call (.run 50000 true), .turn 0]

end Microsippy
