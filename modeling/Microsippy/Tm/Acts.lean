import Microsippy.Scratch
import Microsippy.Tm.Drop
import Mathlib.Logic.Relation

/-! # What happens to the slots

Whatever the manager does to its slots is a sequence of acts. What outlives every act is what a server
transaction keeps while it lives.
-/

namespace Microsippy

set_option autoImplicit false

/-- What may happen to the slots beyond what always may: a release of a server transaction that has not
ended, Timer J armed again, an owner set, a slot's next request, a provisional response to an INVITE
that is settled but not reported, the dropping of a slot that is its own parent, and the end of a
dialog. -/
structure Allow where
  stale : Prop := False
  rearm : Prop := False
  owns : Prop := False
  renew : Nat → Prop := fun _ => False
  late : Nat → Prop := fun _ => False
  twice : Prop := False
  gone : Nat → Prop := fun _ => False

/-! ## Settled clients -/

/-- A final response is in, or there will be none. -/
def Ctl.Settled (c : Ctl) : Prop := c.state = .COMPLETED ∨ c.state = .TERMINATED

/-- The callbacks a client transaction has, and whether it is abandoned. -/
def Ctl.calls (c : Ctl) : UacCallbacks × Bool := (c.callbacks, c.abandoned)

/-- No callback comes back, and none is left of what is abandoned. -/
def Ctl.CallsNoMore (c c' : Ctl) : Prop :=
  (c'.callbacks = c.callbacks ∧ (c'.abandoned → c.abandoned)) ∨ c'.callbacks = {}

instance : IsPreorder Ctl Ctl.CallsNoMore where
  refl _ := Or.inl ⟨rfl, id⟩
  trans _ _ _ h h' := by
    rcases h' with ⟨hSame, hBack⟩ | hNone
    · rw [Ctl.CallsNoMore, hSame]
      exact h.imp_left fun hBoth => ⟨hBoth.1, hBoth.2 ∘ hBack⟩
    · exact Or.inr hNone

theorem Ctl.CallsNoMore.same {c c' : Ctl} (h : c'.calls = c.calls) : c.CallsNoMore c' :=
  Or.inl ⟨congrArg Prod.fst h, fun hWas => (congrArg Prod.snd h).symm.trans hWas⟩

/-- What is settled, reported or stopped stays so, and no callback comes back. -/
structure Ctl.StaysDone (c c' : Ctl) : Prop where
  settled : c.Settled → c'.Settled
  reported : c.final_reported → c'.final_reported
  stopped : c.terminated → c'.terminated
  callbacks : c.CallsNoMore c'

instance : IsPreorder Ctl Ctl.StaysDone where
  refl _ := ⟨id, id, id, Std.Refl.refl _⟩
  trans _ _ _ h h' := ⟨h'.settled ∘ h.settled, h'.reported ∘ h.reported, h'.stopped ∘ h.stopped,
    IsTrans.trans _ _ _ h.callbacks h'.callbacks⟩

theorem Ctl.staysDone_same {c c' : Ctl} (hState : c'.state = c.state)
    (hReported : c'.final_reported = c.final_reported) (hOver : c'.terminated = c.terminated)
    (hCalls : c'.calls = c.calls) : c.StaysDone c' :=
  ⟨fun h => by rwa [Ctl.Settled, hState], hReported.trans, hOver.trans, .same hCalls⟩

theorem Ctl.staysDone_ended {c c' : Ctl} (hState : c'.state = .TERMINATED)
    (hReported : c'.final_reported = c.final_reported) (hOver : c'.terminated = true)
    (hCalls : c'.calls = c.calls) : c.StaysDone c' :=
  ⟨fun _ => Or.inr hState, hReported.trans, fun _ => hOver, .same hCalls⟩

/-! ## Timers of server transactions -/

/-- The timer of a server transaction follows its state. -/
def Ctl.UasTimed (c : Ctl) : Prop :=
  match c.state with
  | .COMPLETED =>
    (c.timer.type = .H ∧ c.method_type = .INVITE ∧ 300 ≤ c.last_status_code) ∨
      ((c.timer.type = .NONE ∨ c.timer.type = .J) ∧ c.method_type ≠ .INVITE ∧ 200 ≤ c.last_status_code)
  | .ACCEPTED => c.timer.type = .L ∧ 200 ≤ c.last_status_code ∧ c.last_status_code < 300
  | .CONFIRMED => c.timer.type = .I ∧ c.method_type = .INVITE ∧ 300 ≤ c.last_status_code
  | .TERMINATED => c.timer.type = .NONE
  | _ => c.timer.type = .NONE ∧ c.last_status_code < 200

/-- How far a server transaction has come. -/
def Ctl.phase (c : Ctl) : Nat :=
  match c.state with
  | .COMPLETED => 1
  | .ACCEPTED => 1
  | .CONFIRMED => 2
  | .TERMINATED => 3
  | _ => 0

theorem le_TIME_NONE (t : UInt64) : t ≤ TIME_NONE :=
  UInt64.le_iff_toNat_le.mpr (Nat.le_of_lt_succ t.toNat_lt)

/-- A time before one that is set is set. -/
theorem set_of_le {t u : UInt64} (h : t ≤ u) (hSet : u ≠ TIME_NONE) : t ≠ TIME_NONE := by
  rintro rfl
  exact hSet (UInt64.le_antisymm (le_TIME_NONE u) h)

/-- A server transaction goes on, its timer due no later than it was. -/
structure Ctl.Onward (rearm : Prop) (c c' : Ctl) : Prop where
  timed : c'.UasTimed
  phase : c.phase ≤ c'.phase
  type : c.phase = c'.phase → c.timer.type ≠ .NONE → c'.timer.type = c.timer.type
  due : rearm ∨ (c.timer.type ≠ .NONE → c'.timer.type = c.timer.type →
    c.timer.due_at_ms ≠ TIME_NONE → c'.timer.due_at_ms ≤ c.timer.due_at_ms)

/-- The timer that runs tells the phase. -/
theorem Ctl.UasTimed.phase_eq {c c' : Ctl} (h : c.UasTimed) (h' : c'.UasTimed)
    (hType : c'.timer.type = c.timer.type) (hRuns : c.timer.type ≠ .NONE) : c.phase = c'.phase := by
  rw [UasTimed] at h h'
  rw [Ctl.phase, Ctl.phase]
  cases hState : c.state <;> cases hState' : c'.state <;> simp_all

theorem Ctl.onward_same {rearm : Prop} {c c' : Ctl} (hTimed : c.UasTimed) (hState : c'.state = c.state)
    (hTimer : c'.timer = c.timer) (hMethod : c'.method_type = c.method_type)
    (hLast : c'.last_status_code = c.last_status_code) : c.Onward rearm c' where
  timed := by rwa [UasTimed, hState, hTimer, hMethod, hLast]
  phase := by rw [Ctl.phase, Ctl.phase, hState]
  type _ _ := by rw [hTimer]
  due := Or.inr fun _ _ _ => by
    rw [hTimer]
    exact UInt64.le_refl _

theorem Ctl.phase_ended {c : Ctl} (h : c.state = .TERMINATED) : c.phase = 3 := by
  rw [Ctl.phase, h]

theorem Ctl.phase_le (c : Ctl) : c.phase ≤ 3 := by
  rw [Ctl.phase]
  split <;> omega

theorem Ctl.onward_ended {rearm : Prop} {c c' : Ctl} (hTimed : c.UasTimed)
    (hState : c'.state = .TERMINATED) (hType : c'.timer.type = .NONE) : c.Onward rearm c' where
  timed := by rwa [UasTimed, hState]
  phase := Ctl.phase_ended hState ▸ c.phase_le
  type hPhase hRuns := by
    have hEnded : c'.UasTimed := by rwa [UasTimed, hState]
    rw [Ctl.phase_ended hState] at hPhase
    rw [UasTimed] at hTimed
    rw [Ctl.phase] at hPhase
    split at hPhase <;> simp_all
  due := Or.inr fun hRuns hSame => absurd (hSame.symm.trans hType) hRuns

theorem Ctl.Onward.trans {rearm : Prop} {c c' c'' : Ctl} (hTimed : c.UasTimed) (h : c.Onward rearm c')
    (h' : c'.Onward rearm c'') : c.Onward rearm c'' := by
  have hMiddle : ∀ hRuns : c.timer.type ≠ .NONE, c.phase = c''.phase →
      c'.timer.type = c.timer.type ∧ c''.timer.type = c'.timer.type := by
    intro hRuns hPhase
    have hFirst := h.phase
    have hSecond := h'.phase
    have hType := h.type (by omega) hRuns
    exact ⟨hType, h'.type (by omega) (hType ▸ hRuns)⟩
  refine ⟨h'.timed, Nat.le_trans h.phase h'.phase, fun hPhase hRuns => ?_, ?_⟩
  · obtain ⟨hFirst, hSecond⟩ := hMiddle hRuns hPhase
    exact hSecond.trans hFirst
  · rcases h.due with hRearm | hDue
    · exact Or.inl hRearm
    rcases h'.due with hRearm | hDue'
    · exact Or.inl hRearm
    refine Or.inr fun hRuns hType hSet => ?_
    obtain ⟨hFirst, hSecond⟩ := hMiddle hRuns (hTimed.phase_eq h'.timed hType hRuns)
    have hKept := hDue hRuns hFirst hSet
    exact UInt64.le_trans (hDue' (hFirst ▸ hRuns) hSecond (set_of_le hKept hSet)) hKept

/-! ## One slot -/

/-- The same transaction. A client's has no owner to lose. -/
structure Ctl.SameLife (c c' : Ctl) : Prop where
  active : c'.active = c.active
  born : c'.born = c.born
  role : c'.role = c.role
  client : c.role = .UAC → c'.uas_owner = c.uas_owner

instance : IsPreorder Ctl Ctl.SameLife where
  refl _ := ⟨rfl, rfl, rfl, fun _ => rfl⟩
  trans _ _ _ h h' :=
    ⟨h'.active.trans h.active, h'.born.trans h.born, h'.role.trans h.role,
      fun hRole => (h'.client (h.role.trans hRole)).trans (h.client hRole)⟩

/-- The same heap, whatever is on it. -/
def Heap.SameSlot (hp hp' : Heap) : Prop := hp'.slot = hp.slot

instance : IsPreorder Heap Heap.SameSlot where
  refl _ := rfl
  trans _ _ _ h h' := Eq.trans h' h

/-- What may be undone of a client transaction. -/
structure Undone where
  renewed : Prop
  late : Prop

/-- The same transaction on the same storage, done unless that may be undone. Callbacks are only given
while a slot is filled. -/
structure Txi.SameLife (undone : Undone) (tp tp' : Txi) : Prop where
  life : tp.toCtl.SameLife tp'.toCtl
  slot : tp.scratch.SameSlot tp'.scratch
  callbacks : tp.active = true → tp.toCtl.CallsNoMore tp'.toCtl
  settled : undone.renewed ∨ undone.late ∨ (tp.toCtl.Settled → tp'.toCtl.Settled)
  done : undone.renewed ∨
    ((tp.final_reported → tp'.final_reported) ∧ (tp.terminated → tp'.terminated))

instance (undone : Undone) : IsPreorder Txi (Txi.SameLife undone) where
  refl _ := ⟨Std.Refl.refl _, rfl, fun _ => Std.Refl.refl _, Or.inr (Or.inr id), Or.inr ⟨id, id⟩⟩
  trans _ _ _ h h' := by
    refine ⟨IsTrans.trans _ _ _ h.life h'.life, Eq.trans h'.slot h.slot, fun hActive => ?_, ?_, ?_⟩
    · exact IsTrans.trans _ _ _ (h.callbacks hActive) (h'.callbacks (h.life.active.trans hActive))
    · rcases h.settled with hNew | hLate | hSettled
      · exact Or.inl hNew
      · exact Or.inr (Or.inl hLate)
      · exact h'.settled.imp_right (Or.imp_right fun hNext => hNext ∘ hSettled)
    · rcases h.done with hNew | hDone
      · exact Or.inl hNew
      · exact h'.done.imp_right fun hNext => ⟨hNext.1 ∘ hDone.1, hNext.2 ∘ hDone.2⟩

theorem Txi.SameLife.of_done {undone : Undone} {tp tp' : Txi} (hLife : tp.toCtl.SameLife tp'.toCtl)
    (hSlot : tp.scratch.SameSlot tp'.scratch) (hDone : tp.toCtl.StaysDone tp'.toCtl) :
    tp.SameLife undone tp' :=
  ⟨hLife, hSlot, fun _ => hDone.callbacks, Or.inr (Or.inr hDone.settled),
    Or.inr ⟨hDone.reported, hDone.stopped⟩⟩

/-- Only the data of a slot has changed. -/
theorem Txi.SameLife.of_ctl {undone : Undone} {tp tp' : Txi} (hCtl : tp'.toCtl = tp.toCtl)
    (hSlot : tp.scratch.SameSlot tp'.scratch) : tp.SameLife undone tp' :=
  .of_done (by rw [hCtl]; exact Std.Refl.refl _) hSlot (by rw [hCtl]; exact Std.Refl.refl _)

theorem Txi.SameLife.mono {u v : Undone} {tp tp' : Txi} (hRenewed : u.renewed → v.renewed)
    (hLate : u.late → v.late) (h : tp.SameLife u tp') : tp.SameLife v tp' :=
  ⟨h.life, h.slot, h.callbacks, h.settled.imp hRenewed (Or.imp_left hLate), h.done.imp_left hRenewed⟩

theorem Txi.SameLife.of_any {tp tp' : Txi} (hLife : tp.toCtl.SameLife tp'.toCtl)
    (hSlot : tp.scratch.SameSlot tp'.scratch) (hCallbacks : tp'.callbacks = tp.callbacks)
    (hBack : tp'.abandoned → tp.abandoned) : tp.SameLife ⟨True, True⟩ tp' :=
  ⟨hLife, hSlot, fun _ => Or.inl ⟨hCallbacks, hBack⟩, Or.inl trivial, Or.inl trivial⟩

/-- The data of a slot has changed, and its method at most of the control part. -/
structure Txi.Quiet (tp tp' : Txi) : Prop where
  ctl : tp'.toCtl = { tp.toCtl with method_type := tp'.method_type }
  slot : tp.scratch.SameSlot tp'.scratch

instance : IsPreorder Txi Txi.Quiet where
  refl _ := ⟨rfl, rfl⟩
  trans _ _ _ h h' := ⟨by rw [h'.ctl, h.ctl], Eq.trans h'.slot h.slot⟩

theorem Txi.Quiet.sameLife {undone : Undone} {tp tp' : Txi} (h : tp.Quiet tp') :
    tp.SameLife undone tp' := by
  refine .of_done ?_ h.slot ?_ <;> rw [h.ctl]
  · exact ⟨rfl, rfl, rfl, fun _ => rfl⟩
  · exact Ctl.staysDone_same rfl rfl rfl rfl

/-- What is below the last checkpoint. -/
def Heap.base (hp : Heap) : Nat := hp.checkpoints.getLast?.getD 0

/-- What is below the last checkpoint has not changed. -/
structure Heap.KeptBelow (hp hp' : Heap) : Prop where
  slot : hp'.slot = hp.slot
  checkpoints : hp'.checkpoints = hp.checkpoints
  le : hp.base ≤ hp.alen → hp.base ≤ hp'.alen
  below : hp.base ≤ hp.alen → ∀ k < hp.base, hp'.first k = hp.first k

theorem Heap.KeptBelow.base_eq {hp hp' : Heap} (h : hp.KeptBelow hp') : hp'.base = hp.base := by
  rw [Heap.base, Heap.base, h.checkpoints]

instance : IsPreorder Heap Heap.KeptBelow where
  refl _ := ⟨rfl, rfl, id, fun _ _ _ => rfl⟩
  trans hp hp' hp'' h h' := by
    have hBase := h.base_eq
    refine ⟨h'.slot.trans h.slot, h'.checkpoints.trans h.checkpoints, fun hLe => ?_, fun hLe k hk => ?_⟩
    · exact hBase ▸ h'.le (hBase.symm ▸ h.le hLe)
    · exact (h'.below (hBase.symm ▸ h.le hLe) k (hBase.symm ▸ hk)).trans (h.below hLe k hk)

/-- A transaction that ends does not come back, and neither side of it goes back. -/
structure Ctl.Kept (allow : Allow) (c c' : Ctl) : Prop where
  life : c.SameLife c'
  method : c'.method_type = c.method_type
  ended : c.state = .TERMINATED → c'.state = .TERMINATED
  owner : allow.owns ∨ c'.uas_owner = c.uas_owner ∨ c'.uas_owner = none
  done : c.role = .UAC → c.StaysDone c'
  onward : c.role = .UAS → c.UasTimed → c.Onward allow.rearm c'

instance (allow : Allow) : IsPreorder Ctl (Ctl.Kept allow) where
  refl _ := ⟨Std.Refl.refl _, rfl, id, Or.inr (Or.inl rfl), fun _ => Std.Refl.refl _,
    fun _ hTimed => Ctl.onward_same hTimed rfl rfl rfl rfl⟩
  trans _ _ _ h h' := by
    refine ⟨IsTrans.trans _ _ _ h.life h'.life, h'.method.trans h.method,
      fun hEnded => h'.ended (h.ended hEnded), ?_, fun hRole => ?_, fun hRole hTimed => ?_⟩
    · rcases h'.owner with hOwns | hSame | hNone
      · exact Or.inl hOwns
      · rw [hSame]
        exact h.owner
      · exact Or.inr (Or.inr hNone)
    · exact IsTrans.trans _ _ _ (h.done hRole) (h'.done (h.life.role.trans hRole))
    · have hFirst := h.onward hRole hTimed
      exact hFirst.trans hTimed (h'.onward (h.life.role.trans hRole) hFirst.timed)

/-- A change that leaves the state, the timer and what they go with. -/
theorem Ctl.kept_same {allow : Allow} {c c' : Ctl} (hLife : c.SameLife c')
    (hMethod : c'.method_type = c.method_type) (hState : c'.state = c.state)
    (hTimer : c'.timer = c.timer) (hLast : c'.last_status_code = c.last_status_code)
    (hReported : c'.final_reported = c.final_reported) (hOver : c'.terminated = c.terminated)
    (hCalls : c'.calls = c.calls) (hOwner : c'.uas_owner = c.uas_owner) :
    c.Kept allow c' :=
  ⟨hLife, hMethod, hState.trans, Or.inr (Or.inl hOwner),
    fun _ => Ctl.staysDone_same hState hReported hOver hCalls,
    fun _ hTimed => Ctl.onward_same hTimed hState hTimer hMethod hLast⟩

/-- The part of the control that says what a transaction has come to. -/
def Ctl.core (c : Ctl) : Ctl :=
  { active := c.active, role := c.role, state := c.state, terminated := c.terminated
    abandoned := c.abandoned, method_type := c.method_type, timer := c.timer, last_status_code := c.last_status_code
    final_reported := c.final_reported, callbacks := c.callbacks, uas_owner := c.uas_owner
    born := c.born }

theorem Ctl.kept_core {allow : Allow} {c c' : Ctl} (h : c'.core = c.core) : c.Kept allow c' := by
  simp only [Ctl.core, Ctl.mk.injEq] at h
  refine Ctl.kept_same ⟨?_, ?_, ?_, fun _ => ?_⟩ ?_ ?_ ?_ ?_ ?_ ?_ (Prod.ext ?_ ?_) ?_ <;> tauto

/-- The end of a transaction. -/
theorem Ctl.kept_ended {allow : Allow} {c c' : Ctl} (hLife : c.SameLife c')
    (hMethod : c'.method_type = c.method_type) (hState : c'.state = .TERMINATED)
    (hType : c'.timer.type = .NONE) (hReported : c'.final_reported = c.final_reported)
    (hOver : c'.terminated = true) (hCalls : c'.calls = c.calls)
    (hOwner : c'.uas_owner = c.uas_owner) : c.Kept allow c' :=
  ⟨hLife, hMethod, fun _ => hState, Or.inr (Or.inl hOwner),
    fun _ => Ctl.staysDone_ended hState hReported hOver hCalls,
    fun _ hTimed => Ctl.onward_ended hTimed hState hType⟩

/-- A cache but for the ACK's hash. -/
def Cache.SameButAck (c c' : Cache) : Prop :=
  ∃ h, c' = { c with uas := { c.uas with ack_hash := h } }

instance : IsPreorder Cache Cache.SameButAck where
  refl c := ⟨c.uas.ack_hash, rfl⟩
  trans _ _ _ h h' := by
    obtain ⟨a, rfl⟩ := h
    obtain ⟨b, rfl⟩ := h'
    exact ⟨b, rfl⟩

/-- What a slot keeps of its request, the identity unless it was released. -/
structure Txi.Kept (allow : Allow) (tp tp' : Txi) : Prop where
  ctl : tp.toCtl.Kept allow tp'.toCtl
  cache : tp.cache.SameButAck tp'.cache
  checkpoint : tp'.checkpoint = tp.checkpoint
  heap : tp.scratch.KeptBelow tp'.scratch
  id : allow.stale ∨ tp'.state = .TERMINATED ∨ tp'.id = tp.id

instance (allow : Allow) : IsPreorder Txi (Txi.Kept allow) where
  refl _ := ⟨Std.Refl.refl _, Std.Refl.refl _, rfl, Std.Refl.refl _, Or.inr (Or.inr rfl)⟩
  trans tp tp' tp'' h h' := by
    refine ⟨IsTrans.trans _ _ _ h.ctl h'.ctl, IsTrans.trans _ _ _ h.cache h'.cache,
      h'.checkpoint.trans h.checkpoint, IsTrans.trans _ _ _ h.heap h'.heap, ?_⟩
    rcases h.id with hStale | hEnded | hId
    · exact Or.inl hStale
    · exact Or.inr (Or.inl (h'.ctl.ended hEnded))
    · rw [← hId]
      exact h'.id

/-! ## What a server transaction answered -/

/-- A string of storage that is never written, or on the heap below its end. -/
def Heap.Laid (hp : Heap) (s : Str) : Prop :=
  (∃ b, s.src = .lit b) ∨ ∃ i, s.src = .scratch i ∧ hp.slot = some i ∧ s.off + s.l ≤ hp.alen

/-- The same below the last checkpoint. -/
def Heap.Holds (hp : Heap) (s : Str) : Prop :=
  (∃ b, s.src = .lit b) ∨ ∃ i, s.src = .scratch i ∧ hp.slot = some i ∧ s.off + s.l ≤ hp.base

/-- A string of storage that is never written, or on the heap. -/
def Heap.Owns (hp : Heap) (s : Str) : Prop :=
  (∃ b, s.src = .lit b) ∨ ∃ i, s.src = .scratch i ∧ hp.slot = some i

theorem Heap.owns_view (hp : Heap) (off l : Nat) : hp.Owns (hp.view off l) := by
  rw [Heap.Owns, Heap.view]
  cases hp.slot with
  | none => exact Or.inl ⟨_, rfl⟩
  | some i => exact Or.inr ⟨i, rfl, rfl⟩

theorem Heap.KeptBelow.owns {hp hp' : Heap} {s : Str} (h : hp.KeptBelow hp') (hs : hp.Owns s) :
    hp'.Owns s := hs.imp_right fun ⟨i, hSrc, hSlot⟩ => ⟨i, hSrc, h.slot.trans hSlot⟩

theorem Heap.holds_null (hp : Heap) : hp.Holds Str.null := Or.inl ⟨[], rfl⟩

theorem Heap.KeptBelow.holds {hp hp' : Heap} {s : Str} (h : hp.KeptBelow hp') (hs : hp.Holds s) :
    hp'.Holds s := by
  obtain hLit | ⟨i, hSrc, hSlot, hLe⟩ := hs
  · exact Or.inl hLit
  · exact Or.inr ⟨i, hSrc, h.slot.trans hSlot, h.base_eq ▸ hLe⟩

theorem Heap.KeptBelow.top {hp hp' : Heap} (h : hp.KeptBelow hp') (hTop : hp.base ≤ hp.alen) :
    hp'.base ≤ hp'.alen := h.base_eq ▸ h.le hTop

theorem Heap.KeptBelow.read {hp hp' : Heap} {s : Str} (h : hp.KeptBelow hp')
    (hTop : hp.base ≤ hp.alen) (hs : hp.Holds s) (m m' : Mem) :
    (hp'.mem m').read s = (hp.mem m).read s := by
  obtain ⟨b, hLit⟩ | ⟨i, hSrc, hSlot, hLe⟩ := hs
  · exact Mem.read_of_lit hLit _ _
  · rw [Heap.read_own hSrc hSlot, Heap.read_own hSrc (h.slot.trans hSlot)]
    exact Arena.readAt_congr fun k hk => h.below hTop _ (by omega)

/-- What a server transaction knows its request by lies where responses are not built, and it answers
to where the request came from. -/
structure Txi.Grounded (tp : Txi) : Prop where
  top : tp.scratch.base ≤ tp.scratch.alen
  call_id : tp.scratch.Holds tp.id.call_id
  branch : tp.scratch.Holds tp.id.branch
  from_tag : tp.scratch.Holds tp.id.from_tag
  host : tp.peer.host.l = 0 ∨ tp.scratch.Holds tp.peer.host
  raw : tp.scratch.Owns tp.raw
  target : tp.target = tp.peer

/-- The hash of the CANCEL a server transaction tells its application of, 0 for none. -/
def Txi.cancelHash (m : Mem) (tp : Txi) : UInt32 :=
  if tp.cache.method_type = .INVITE ∧ tp.uas_callbacks.cancel then uasMethodHash m tp .CANCEL else 0

/-- The hashes of a server transaction are those of the requests it waits for, unless it was
released. -/
structure Txi.Hashed (tp : Txi) : Prop where
  to_tag : tp.scratch.Holds tp.cache.to_tag
  tagged : tp.cache.to_tag.l ≠ 0
  hashes : tp.id.from_tag.l = 0 ∨ ∃ m : Mem,
    tp.cache.uas.ack_hash = uasAckHash (tp.scratch.mem m) tp tp.last_status_code.toNat ∧
      tp.cache.uas.cancel_hash = tp.cancelHash (tp.scratch.mem m)

/-- A final response lasts, and its bytes unless the transaction ends or a release takes them. -/
structure Txi.AnswerLasts (allow : Allow) (tp tp' : Txi) : Prop where
  last : tp'.last_status_code = tp.last_status_code
  stored : allow.stale ∨ tp'.state = .TERMINATED ∨ (tp'.raw = tp.raw ∧ tp'.scratch = tp.scratch)

/-- What lasts of a server transaction beside what every slot keeps. -/
structure Txi.Lasts (allow : Allow) (tp tp' : Txi) : Prop extends Txi.Kept allow tp tp' where
  peer : tp'.peer = tp.peer
  answer : tp.role = .UAS → 200 ≤ tp.last_status_code → tp.AnswerLasts allow tp'
  grounded : tp.role = .UAS → tp.Grounded → tp'.Grounded
  hashed : tp.role = .UAS → tp.Grounded → tp.Hashed → tp'.Hashed

instance (allow : Allow) : IsPreorder Txi (Txi.Lasts allow) where
  refl tp := ⟨Std.Refl.refl _, rfl, fun _ _ => ⟨rfl, Or.inr (Or.inr ⟨rfl, rfl⟩)⟩, fun _ => id,
    fun _ _ => id⟩
  trans tp tp' tp'' h h' := by
    have hRole : tp.role = .UAS → tp'.role = .UAS := h.ctl.life.role.trans
    refine ⟨IsTrans.trans _ _ _ h.toKept h'.toKept, h'.peer.trans h.peer, fun hUas hFinal => ?_,
      fun hUas => h'.grounded (hRole hUas) ∘ h.grounded hUas,
      fun hUas hGrounded => h'.hashed (hRole hUas) (h.grounded hUas hGrounded) ∘ h.hashed hUas hGrounded⟩
    have hFirst := h.answer hUas hFinal
    have hThen := h'.answer (hRole hUas) (hFirst.last ▸ hFinal)
    refine ⟨hThen.last.trans hFirst.last, ?_⟩
    obtain hStale | hEnded | ⟨hRaw, hScratch⟩ := hFirst.stored
    · exact Or.inl hStale
    · exact Or.inr (Or.inl (h'.ctl.ended hEnded))
    · exact hRaw ▸ hScratch ▸ hThen.stored

/-- A change to the control part that leaves what was answered. -/
structure Ctl.Rests (allow : Allow) (c c' : Ctl) : Prop where
  kept : c.Kept allow c'
  last : c'.last_status_code = c.last_status_code
  callbacks : c'.uas_callbacks = c.uas_callbacks

theorem Ctl.rests_core {allow : Allow} {c c' : Ctl} (h : c'.core = c.core)
    (hCallbacks : c'.uas_callbacks = c.uas_callbacks) : c.Rests allow c' := by
  have hLast : c'.core.last_status_code = c.core.last_status_code := by rw [h]
  exact ⟨Ctl.kept_core h, hLast, hCallbacks⟩

theorem Txi.lasts_ctl {allow : Allow} {tp : Txi} {c : Ctl} (h : tp.toCtl.Rests allow c) :
    tp.Lasts allow { tp with toCtl := c } where
  toKept := ⟨h.kept, Std.Refl.refl _, rfl, Std.Refl.refl _, Or.inr (Or.inr rfl)⟩
  peer := rfl
  answer _ _ := ⟨h.last, Or.inr (Or.inr ⟨rfl, rfl⟩)⟩
  grounded _ hGrounded := ⟨hGrounded.top, hGrounded.call_id, hGrounded.branch, hGrounded.from_tag,
    hGrounded.host, hGrounded.raw, hGrounded.target⟩
  hashed _ _ hHashed := by
    refine ⟨hHashed.to_tag, hHashed.tagged, hHashed.hashes.imp_right fun ⟨m, hAck, hCancel⟩ => ⟨m, ?_, ?_⟩⟩
    · rw [h.last]
      exact hAck
    · rw [hCancel]
      simp only [Txi.cancelHash, h.callbacks]
      rfl

/-! ## Acts -/

/-- What may be undone of the transaction in a slot. -/
def Allow.undone (allow : Allow) (j : Nat) : Undone := ⟨allow.renew j, allow.late j⟩

/-- A slot counted with a new transaction in it. -/
def Tm.enter (j : Nat) (tp : Txi) (tm : Tm) : Tm :=
  { tm.set j tp with nactive := tm.nactive + 1, serial := tm.serial + 1 }

/-- What can happen to the slots, but for a server transaction's coming into being. -/
inductive Act (allow : Allow) (tm : Tm) : Tm → Prop
  /-- Work on a client transaction. -/
  | work (j : Nat) (tp : Txi) (hRole : (tm.tx j).role = .UAC)
      (h : (tm.tx j).SameLife (allow.undone j) tp) : Act allow tm (tm.set j tp)
  /-- Work on a slot that is being filled. -/
  | fill (j : Nat) (tp : Txi) (hRole : (tm.tx j).role = .UAC) (hFree : (tm.tx j).active = false)
      (h : (tm.tx j).SameLife ⟨True, True⟩ tp) : Act allow tm (tm.set j tp)
  /-- Work on any transaction. -/
  | stay (j : Nat) (tp : Txi) (h : (tm.tx j).Lasts allow tp) : Act allow tm (tm.set j tp)
  /-- A free slot cleared. -/
  | clear (j : Nat) (hFree : (tm.tx j).active = false) : Act allow tm (tm.set j (tm.tx j).reset)
  /-- A client transaction comes into being. -/
  | enter (j : Nat) (tp : Txi) (hFree : (tm.tx j).active = false) (hActive : tp.active = true)
      (hBorn : tp.born = tm.serial) (hRole : tp.role = .UAC)
      (hKept : tp.abandoned = true → tp.callbacks = {})
      (hSlot : (tm.tx j).scratch.SameSlot tp.scratch) (hIn : j < tm.max_transactions)
      (hOwner : tp.uas_owner = (tm.tx j).uas_owner) :
      Act allow tm (tm.enter j tp)
  | drop (j : Nat) (hj : j < tm.max_transactions) (hActive : (tm.tx j).active)
      (hTwice : tm.ChildOf j j → allow.twice) : Act allow tm (tm.drop j)
  /-- A client transaction that fails when it is already counted. -/
  | uncount (j : Nat) (hActive : (tm.tx j).active) : Act allow tm (tm.uncount j)
  | leak (j : Nat) (hActive : (tm.tx j).active) :
      Act allow tm { tm.set j (tm.tx j).fini with leaked := tm.leaked + 1 }

/-- What holds of a server transaction as long as it lives. -/
structure Txi.UasOk (tp : Txi) : Prop where
  active : tp.active = true
  method : tp.method_type ≠ .ACK
  same : tp.cache.method_type = tp.method_type
  timed : tp.UasTimed

/-- The tags an id policy gives are its own or on the heap it is given. -/
def IdPolicy.LaysTags (policy : IdPolicy) : Prop :=
  ∀ n inp hp out, (policy.cb n inp hp).1 = .ok out → (policy.cb n inp hp).2.Laid out.local_tag

/-- The id policy, if there is one, gives such tags. -/
def Tm.LaysTags (tm : Tm) : Prop := ∀ policy, tm.id_policy = some policy → policy.LaysTags

/-- A server transaction comes into being. -/
inductive Enters (tm : Tm) : Tm → Prop
  | mk (j : Nat) (tp : Txi) (hBorn : tp.born = tm.serial) (hRole : tp.role = .UAS) (hOk : tp.UasOk)
      (hOwner : tp.uas_owner = none) (hSlot : (tm.tx j).scratch.SameSlot tp.scratch)
      (hFree : (tm.tx j).active = false) (hIn : j < tm.max_transactions) (hGrounded : tp.Grounded)
      (hHashed : tm.LaysTags → tp.Hashed) : Enters tm (tm.enter j tp)

/-- A slot after an act is free or a client's, or has kept what it had. -/
theorem Act.slot {allow : Allow} {tm tm' : Tm} (h : Act allow tm tm') (k : Nat) :
    (tm'.tx k).role = .UAC ∨ (tm.tx k).Lasts allow (tm'.tx k) := by
  have hSet : ∀ (j : Nat) (tp : Txi), (tp.role = .UAC ∨ (tm.tx j).Lasts allow tp) →
      ((tm.set j tp).tx k).role = .UAC ∨ (tm.tx k).Lasts allow ((tm.set j tp).tx k) := by
    intro j tp hEither
    by_cases hk : k = j
    · subst hk
      rw [Tm.set_same]
      exact hEither
    · rw [Tm.set_other _ _ hk]
      exact Or.inr (Std.Refl.refl _)
  cases h with
  | work j tp hRole h => exact hSet j tp (Or.inl (h.life.role.trans hRole))
  | stay j tp h => exact hSet j tp (Or.inr h)
  | clear j hFree => exact hSet j _ (Or.inl rfl)
  | fill j tp hRole hFree h => exact hSet j tp (Or.inl (h.life.role.trans hRole))
  | enter j tp hFree hActive hBorn hRole hKept hSlot => exact hSet j tp (Or.inl hRole)
  | drop j hj hActive =>
    rw [Tm.drop_tx]
    split
    · exact Or.inl rfl
    · rw [Tm.dropLinked]
      split
      · exact Or.inr (Txi.lasts_ctl (Ctl.rests_core rfl rfl))
      · exact Or.inr (Std.Refl.refl _)
  | uncount j hActive => exact hSet j _ (Or.inl rfl)
  | leak j hActive => exact hSet j _ (Or.inl rfl)

theorem Act.serial_le {allow : Allow} {tm tm' : Tm} (h : Act allow tm tm') :
    tm.serial ≤ tm'.serial := by
  cases h with
  | drop j hj hActive => exact Nat.le_of_eq (Tm.drop_frame tm j).2.1.symm
  | enter j tp hFree hActive hBorn hRole hKept hSlot => exact Nat.le_succ _
  | _ => exact Nat.le_refl _

theorem Act.max {allow : Allow} {tm tm' : Tm} (h : Act allow tm tm') :
    tm'.max_transactions = tm.max_transactions := by
  cases h with
  | drop j hj hActive => exact (Tm.drop_frame tm j).1
  | _ => rfl

/-- Every slot keeps its storage. -/
theorem Act.storage {allow : Allow} {tm tm' : Tm} (h : Act allow tm tm') (k : Nat) :
    (tm.tx k).scratch.SameSlot (tm'.tx k).scratch := by
  have hSet : ∀ (j : Nat) (tp : Txi), (tm.tx j).scratch.SameSlot tp.scratch →
      (tm.tx k).scratch.SameSlot ((tm.set j tp).tx k).scratch := by
    intro j tp hSlot
    by_cases hk : k = j
    · subst hk
      rw [Tm.set_same]
      exact hSlot
    · rw [Tm.set_other _ _ hk]
      exact Std.Refl.refl _
  cases h with
  | work j tp hRole h => exact hSet j tp h.slot
  | fill j tp hRole hFree h => exact hSet j tp h.slot
  | stay j tp h => exact hSet j tp h.heap.slot
  | clear j hFree => exact hSet j _ rfl
  | enter j tp hFree hActive hBorn hRole hKept hSlot => exact hSet j tp hSlot
  | drop j hj hActive =>
    rw [Tm.drop_tx]
    split
    · rfl
    · rw [Tm.dropLinked]
      split <;> rfl
  | uncount j hActive => exact hSet j _ rfl
  | leak j hActive => exact hSet j _ rfl

/-! ## Sequences of acts -/

/-- Acts one after the other. -/
abbrev Acts (allow : Allow) : Tm → Tm → Prop := Relation.ReflTransGen (Act allow)

/-- Acts and server transactions coming into being. -/
abbrev Moves (allow : Allow) : Tm → Tm → Prop :=
  Relation.ReflTransGen fun tm tm' => Act allow tm tm' ∨ Enters tm tm'

theorem Acts.moves {allow : Allow} {tm tm' : Tm} (h : Acts allow tm tm') : Moves allow tm tm' :=
  Relation.ReflTransGen.mono (fun _ _ => Or.inl) _ _ h

theorem Moves.serial_le {allow : Allow} {tm tm' : Tm} (h : Moves allow tm tm') :
    tm.serial ≤ tm'.serial := by
  induction h with
  | refl => exact Nat.le_refl _
  | tail _ hStep ih =>
    refine Nat.le_trans ih ?_
    rcases hStep with hAct | ⟨j, tp, hBorn, hUas, hNew, hOwner, hSlot⟩
    · exact hAct.serial_le
    · exact Nat.le_succ _

theorem Moves.max {allow : Allow} {tm tm' : Tm} (h : Moves allow tm tm') :
    tm'.max_transactions = tm.max_transactions := by
  induction h with
  | refl => rfl
  | tail _ hStep ih =>
    cases hStep with
    | inl hAct => exact hAct.max.trans ih
    | inr hEnters =>
      obtain ⟨j, tp, -, -, -, -, -⟩ := hEnters
      exact ih

theorem Act.policy {allow : Allow} {tm tm' : Tm} (h : Act allow tm tm') :
    tm'.id_policy = tm.id_policy := by
  cases h with
  | drop j hj hActive => exact tm.drop_policy j
  | _ => rfl

theorem Moves.policy {allow : Allow} {tm tm' : Tm} (h : Moves allow tm tm') :
    tm'.id_policy = tm.id_policy := by
  induction h with
  | refl => rfl
  | tail _ hStep ih =>
    cases hStep with
    | inl hAct => exact hAct.policy.trans ih
    | inr hEnters =>
      obtain ⟨j, tp, -, -, -, -, -⟩ := hEnters
      exact ih

/-- What every server transaction is grounded in. -/
def Tm.Grounded (tm : Tm) : Prop := ∀ j, (tm.tx j).role = .UAS → (tm.tx j).Grounded

theorem Moves.grounded {allow : Allow} {tm tm' : Tm} (h : Moves allow tm tm') (hOld : tm.Grounded) :
    tm'.Grounded := by
  induction h with
  | refl => exact hOld
  | @tail t u _ hStep ih =>
    cases hStep with
    | inl hAct =>
      intro k hRole
      cases hAct.slot k with
      | inl hUac => rw [hUac] at hRole; cases hRole
      | inr hLasts =>
        have hWas := hLasts.ctl.life.role.symm.trans hRole
        exact hLasts.grounded hWas (ih k hWas)
    | inr hEnters =>
      obtain ⟨j, tp, -, -, -, -, -, -, -, hNew, -⟩ := hEnters
      intro k hRole
      by_cases hk : k = j
      · subst hk
        rw [Tm.enter, Tm.set_same]
        exact hNew
      · rw [Tm.enter, Tm.set_other _ _ hk] at hRole ⊢
        exact ih k hRole

/-- What the hashes of every server transaction are of. -/
def Tm.Hashed (tm : Tm) : Prop := ∀ j, (tm.tx j).role = .UAS → (tm.tx j).Hashed

theorem Moves.hashed {allow : Allow} {tm tm' : Tm} (h : Moves allow tm tm') (hTags : tm.LaysTags)
    (hGrounded : tm.Grounded) (hOld : tm.Hashed) : tm'.Hashed := by
  induction h with
  | refl => exact hOld
  | @tail t u hFirst hStep ih =>
    have hBase := Moves.grounded hFirst hGrounded
    cases hStep with
    | inl hAct =>
      intro k hRole
      cases hAct.slot k with
      | inl hUac => rw [hUac] at hRole; cases hRole
      | inr hLasts =>
        have hWas := hLasts.ctl.life.role.symm.trans hRole
        exact hLasts.hashed hWas (hBase k hWas) (ih k hWas)
    | inr hEnters =>
      obtain ⟨j, tp, -, -, -, -, -, -, -, -, hNew⟩ := hEnters
      have hSame : t.LaysTags := fun policy hIs => hTags policy (Moves.policy hFirst ▸ hIs)
      intro k hRole
      by_cases hk : k = j
      · subst hk
        rw [Tm.enter, Tm.set_same]
        exact hNew hSame
      · rw [Tm.enter, Tm.set_other _ _ hk] at hRole ⊢
        exact ih k hRole

def Tm.UasOk (tm : Tm) : Prop := ∀ j, (tm.tx j).role = .UAS → (tm.tx j).UasOk

theorem Txi.Kept.uasOk {allow : Allow} {tp tp' : Txi} (h : tp.Kept allow tp') (hRole : tp.role = .UAS)
    (hOk : tp.UasOk) : tp'.UasOk := by
  obtain ⟨hash, hCache⟩ := h.cache
  refine ⟨h.ctl.life.active.trans hOk.active, h.ctl.method ▸ hOk.method, ?_,
    (h.ctl.onward hRole hOk.timed).timed⟩
  rw [hCache, h.ctl.method]
  exact hOk.same

theorem Act.uasOk {allow : Allow} {tm tm' : Tm} (h : Act allow tm tm') (hOk : tm.UasOk) : tm'.UasOk := by
  intro j hRole
  rcases h.slot j with hUac | hKept
  · rw [hUac] at hRole
    cases hRole
  · have hWas := hKept.ctl.life.role.symm.trans hRole
    exact hKept.toKept.uasOk hWas (hOk j hWas)

theorem Moves.uasOk {allow : Allow} {tm tm' : Tm} (h : Moves allow tm tm') (hOk : tm.UasOk) :
    tm'.UasOk := by
  induction h with
  | refl => exact hOk
  | tail _ hStep ih =>
    rcases hStep with hAct | ⟨j, tp, hBorn, hUas, hNew, hOwner, hSlot⟩
    · exact hAct.uasOk ih
    · intro k hRole
      by_cases hk : k = j
      · subst hk
        simp only [Tm.enter, Tm.set, if_true] at hRole ⊢
        exact hNew
      · simp only [Tm.enter, Tm.set, if_neg hk] at hRole ⊢
        exact ih k hRole

/-- The numbers given to transactions so far. -/
def Tm.Numbered (tm : Tm) : Prop := ∀ j, (tm.tx j).born < tm.serial

theorem Tm.enter_numbered {j : Nat} {tp : Txi} {tm : Tm} (hOld : tm.Numbered)
    (hBorn : tp.born = tm.serial) : (tm.enter j tp).Numbered := by
  intro k
  by_cases hk : k = j
  · subst hk
    simp only [Tm.enter, Tm.set_same, hBorn, Nat.lt_succ_self]
  · simp only [Tm.enter, Tm.set_other _ _ hk]
    exact Nat.lt_succ_of_lt (hOld k)

theorem Act.numbered {allow : Allow} {tm tm' : Tm} (h : Act allow tm tm') (hOld : tm.Numbered) :
    tm'.Numbered := by
  have hSet : ∀ (j : Nat) (tp : Txi), tp.born < tm.serial → (tm.set j tp).Numbered := by
    intro j tp hBorn k
    by_cases hk : k = j
    · subst hk
      rwa [Tm.set_same]
    · rw [Tm.set_other _ _ hk]
      exact hOld k
  have hZero : ∀ j, (tm.tx j).fini.born < tm.serial := fun j => Nat.zero_lt_of_lt (hOld j)
  cases h with
  | work j tp hRole h => exact hSet j tp (h.life.born ▸ hOld j)
  | fill j tp hRole hFree h => exact hSet j tp (h.life.born ▸ hOld j)
  | stay j tp h => exact hSet j tp (h.ctl.life.born ▸ hOld j)
  | clear j hFree => exact hSet j _ (hZero j)
  | enter j tp hFree hActive hBorn hRole hKept hSlot => exact Tm.enter_numbered hOld hBorn
  | drop j hj hActive =>
    intro k
    rw [Tm.drop_tx, (Tm.drop_frame tm j).2.1]
    split
    · exact hZero k
    · rw [Tm.dropLinked]
      split <;> exact hOld k
  | uncount j hActive => exact hSet j _ (hZero j)
  | leak j hActive => exact hSet j _ (hZero j)

theorem Moves.numbered {allow : Allow} {tm tm' : Tm} (h : Moves allow tm tm') (hOld : tm.Numbered) :
    tm'.Numbered := by
  induction h with
  | refl => exact hOld
  | tail _ hStep ih =>
    rcases hStep with hAct | ⟨j, tp, hBorn, hUas, hNew, hOwner, hSlot⟩
    · exact hAct.numbered ih
    · exact Tm.enter_numbered ih hBorn

/-- A transaction's number goes with the transaction, and a client's callbacks when it is abandoned. -/
structure Txi.Sound (tp : Txi) : Prop where
  born : tp.active = true ↔ tp.born ≠ 0
  abandoned : tp.role = .UAC → tp.active = true → tp.abandoned = true → tp.callbacks = {}

def Tm.Sound (tm : Tm) : Prop := ∀ j, (tm.tx j).Sound

theorem Txi.Sound.of_calls {tp tp' : Txi} (h : tp.Sound) (hLife : tp.toCtl.SameLife tp'.toCtl)
    (hCalls : tp.role = .UAC → tp.active = true → tp.toCtl.CallsNoMore tp'.toCtl) : tp'.Sound := by
  refine ⟨by rw [hLife.active, hLife.born]; exact h.born, fun hRole hActive hAbandoned => ?_⟩
  have hRoleOld := hLife.role.symm.trans hRole
  have hActiveOld := hLife.active.symm.trans hActive
  rcases hCalls hRoleOld hActiveOld with ⟨hSame, hBack⟩ | hNone
  · exact hSame.trans (h.abandoned hRoleOld hActiveOld (hBack hAbandoned))
  · exact hNone

theorem Txi.fini_sound (tp : Txi) : tp.fini.Sound :=
  ⟨⟨fun h => (by cases h), fun h => absurd rfl h⟩, fun _ h => (by cases h)⟩

theorem Tm.set_sound {tm : Tm} {j : Nat} {tp : Txi} (h : tm.Sound) (hNew : tp.Sound) :
    (tm.set j tp).Sound := by
  intro k
  by_cases hk : k = j
  · subst hk
    rwa [Tm.set_same]
  · rw [Tm.set_other _ _ hk]
    exact h k

theorem Act.sound {allow : Allow} {tm tm' : Tm} (h : Act allow tm tm') (hOld : tm.Sound)
    (hNumbered : tm.Numbered) : tm'.Sound := by
  cases h with
  | work j tp hRole h =>
    exact Tm.set_sound hOld ((hOld j).of_calls h.life fun _ => h.callbacks)
  | fill j tp hRole hFree h =>
    exact Tm.set_sound hOld ((hOld j).of_calls h.life fun _ => h.callbacks)
  | stay j tp h =>
    exact Tm.set_sound hOld ((hOld j).of_calls h.ctl.life fun hRole _ => (h.ctl.done hRole).callbacks)
  | clear j hFree => exact Tm.set_sound hOld (Txi.fini_sound _)
  | enter j tp hFree hActive hBorn hRole hKept hSlot =>
    refine Tm.set_sound hOld ⟨⟨fun _ => ?_, fun _ => hActive⟩, fun _ _ => hKept⟩
    rw [hBorn]
    exact Nat.ne_of_gt (Nat.zero_lt_of_lt (hNumbered j))
  | drop j hj hActive =>
    intro k
    rw [Tm.drop_tx]
    split
    · exact Txi.fini_sound _
    · rw [Tm.dropLinked]
      split
      · exact (hOld k).of_calls ⟨rfl, rfl, rfl, fun _ => rfl⟩ fun _ _ => .same rfl
      · exact hOld k
  | uncount j hActive => exact Tm.set_sound hOld (Txi.fini_sound _)
  | leak j hActive => exact Tm.set_sound hOld (Txi.fini_sound _)

theorem Moves.sound {allow : Allow} {tm tm' : Tm} (h : Moves allow tm tm') (hOld : tm.Sound)
    (hNumbered : tm.Numbered) : tm'.Sound := by
  induction h with
  | refl => exact hOld
  | @tail t u hFirst hStep ih =>
    have hNumberedT := Moves.numbered hFirst hNumbered
    rcases hStep with hAct | ⟨j, tp, hBorn, hUas, hNew, hOwner, hSlot⟩
    · exact hAct.sound ih hNumberedT
    · refine Tm.set_sound ih ⟨⟨fun _ => ?_, fun _ => hNew.active⟩, fun hUac => ?_⟩
      · rw [hBorn]
        exact Nat.ne_of_gt (Nat.zero_lt_of_lt (hNumberedT j))
      · rw [hUas] at hUac
        cases hUac

/-- What is known of a client's slot. -/
def Tm.Uac (j : Nat) (tm : Tm) : Prop := tm.UasOk ∧ (tm.tx j).role = .UAC

theorem Acts.uac {allow : Allow} {tm tm' : Tm} {j : Nat} (h : Acts allow tm tm') (hUac : tm.Uac j) :
    tm'.Uac j := by
  induction h with
  | refl => exact hUac
  | tail _ hStep ih =>
    refine ⟨hStep.uasOk ih.1, ?_⟩
    rcases hStep.slot j with hRole | hKept
    · exact hRole
    · exact hKept.ctl.life.role.trans ih.2

instance (allow : Allow) : Op.Stable Tm.UasOk (Acts allow) := ⟨fun _ _ h => h.moves.uasOk⟩

instance (allow : Allow) : Op.Stable Tm.UasOk (Moves allow) := ⟨fun _ _ h => h.uasOk⟩

instance (allow : Allow) (j : Nat) : Op.Stable (Tm.Uac j) (Acts allow) := ⟨fun _ _ h => h.uac⟩

/-- A server transaction that still lives has kept what it had since any earlier time. -/
theorem Moves.lasts {allow : Allow} {tm tm' : Tm} (h : Moves allow tm tm') {i : Nat}
    (hBorn : (tm'.tx i).born < tm.serial) (hRole : (tm'.tx i).role = .UAS) :
    (tm.tx i).Lasts allow (tm'.tx i) := by
  induction h with
  | refl => exact Std.Refl.refl _
  | @tail t u hFirst hStep ih =>
    have hSerial := Moves.serial_le hFirst
    have hBack : ∀ hKept : (t.tx i).Lasts allow (u.tx i), (tm.tx i).Lasts allow (u.tx i) := by
      intro hKept
      refine IsTrans.trans _ _ _ (ih ?_ ?_) hKept
      · exact hKept.ctl.life.born ▸ hBorn
      · exact hKept.ctl.life.role ▸ hRole
    rcases hStep with hAct | ⟨j, tp, hBornNow, hUas, hNewOk, hOwner, hSlot⟩
    · rcases hAct.slot i with hUac | hKept
      · rw [hUac] at hRole
        cases hRole
      · exact hBack hKept
    · by_cases hi : i = j
      · subst hi
        simp only [Tm.enter, Tm.set, if_true, hBornNow] at hBorn
        omega
      · refine hBack ?_
        simp only [Tm.enter, Tm.set, if_neg hi]
        exact Std.Refl.refl _

theorem Moves.kept {allow : Allow} {tm tm' : Tm} (h : Moves allow tm tm') {i : Nat}
    (hBorn : (tm'.tx i).born < tm.serial) (hRole : (tm'.tx i).role = .UAS) :
    (tm.tx i).Kept allow (tm'.tx i) := (h.lasts hBorn hRole).toKept

/-- A client transaction that is there after an act was there before. -/
theorem Act.client {allow : Allow} {tm tm' : Tm} (h : Act allow tm tm') {k : Nat}
    (hActive : (tm'.tx k).active = true) (hBorn : (tm'.tx k).born < tm.serial)
    (hRole : (tm'.tx k).role = .UAC) :
    (tm.tx k).SameLife (allow.undone k) (tm'.tx k) := by
  have hSet : ∀ (j : Nat) (tp : Txi), tm'.tx k = (tm.set j tp).tx k →
      (k = j → (tm.tx k).SameLife (allow.undone k) tp) →
        (tm.tx k).SameLife (allow.undone k) (tm'.tx k) := by
    intro j tp hIs hLife
    by_cases hk : k = j
    · subst hk
      rw [hIs, Tm.set_same]
      exact hLife rfl
    · rw [hIs, Tm.set_other _ _ hk]
      exact Std.Refl.refl _
  have hGone : ∀ (j : Nat), tm'.tx k = (tm.set j (tm.tx j).fini).tx k →
      (tm.tx k).SameLife (allow.undone k) (tm'.tx k) := by
    intro j hIs
    refine hSet j _ hIs fun hk => ?_
    subst hk
    rw [hIs, Tm.set_same] at hActive
    cases hActive
  cases h with
  | work j tp hWork hLife => exact hSet j tp rfl fun hk => by subst hk; exact hLife
  | stay j tp hKept =>
    refine hSet j tp rfl fun hk => ?_
    subst hk
    rw [Tm.set_same] at hRole
    exact .of_done hKept.ctl.life hKept.heap.slot (hKept.ctl.done (hKept.ctl.life.role.symm.trans hRole))
  | clear j hFree => exact hGone j rfl
  | fill j tp hFill hFree hLife =>
    refine hSet j tp rfl fun hk => ?_
    subst hk
    rw [Tm.set_same, hLife.life.active, hFree] at hActive
    cases hActive
  | enter j tp hFree hIn hBornNow hNew hKept hSlot =>
    refine hSet j tp rfl fun hk => ?_
    subst hk
    rw [Tm.enter, Tm.set_same, hBornNow] at hBorn
    omega
  | drop j hj hActiveOld =>
    rw [Tm.drop_tx] at hActive ⊢
    split at hActive
    · cases hActive
    · rename_i hOther
      rw [if_neg hOther, Tm.dropLinked]
      split
      · exact .of_done ⟨rfl, rfl, rfl, fun _ => rfl⟩ rfl (Ctl.staysDone_same rfl rfl rfl rfl)
      · exact Std.Refl.refl _
  | uncount j hActiveOld => exact hGone j rfl
  | leak j hActiveOld => exact hGone j rfl

/-- A client transaction since any earlier time at which it was there. -/
theorem Moves.client {allow : Allow} {tm tm' : Tm} (h : Moves allow tm tm') {i : Nat}
    (hActive : (tm'.tx i).active = true) (hBorn : (tm'.tx i).born < tm.serial)
    (hRole : (tm'.tx i).role = .UAC) :
    (tm.tx i).SameLife (allow.undone i) (tm'.tx i) := by
  induction h with
  | refl => exact Std.Refl.refl _
  | @tail t u hFirst hStep ih =>
    have hSerial := Moves.serial_le hFirst
    have hBack : ∀ hLife : (t.tx i).SameLife (allow.undone i) (u.tx i),
        (tm.tx i).SameLife (allow.undone i) (u.tx i) := by
      intro hLife
      exact IsTrans.trans _ _ _ (ih (hLife.life.active ▸ hActive) (hLife.life.born ▸ hBorn)
        (hLife.life.role ▸ hRole)) hLife
    rcases hStep with hAct | ⟨j, tp, hBornNow, hUas, hNewOk, hOwner, hSlot⟩
    · exact hBack (hAct.client hActive (Nat.lt_of_lt_of_le hBorn hSerial) hRole)
    · by_cases hi : i = j
      · subst hi
        simp only [Tm.enter, Tm.set, if_true, hBornNow] at hBorn
        omega
      · refine hBack ?_
        simp only [Tm.enter, Tm.set, if_neg hi]
        exact Std.Refl.refl _

end Microsippy
