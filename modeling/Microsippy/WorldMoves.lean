import Microsippy.World
import Microsippy.Tm.Moves

/-! # What a step does to the slots

A step of the system as moves of the manager, with what it may do beyond what every step may read off
the state before it.
-/

namespace Microsippy

set_option autoImplicit false

variable {allow : Allow} {told : Event → Tm → Prop}

/-! ## Dialogs -/

/-- Moves of the manager below a system. A dialog keeps the INVITE it names, and is there until it is
destroyed. -/
structure Sys.Moves (allow : Allow) (s s' : Sys) : Prop where
  slots : Microsippy.Moves allow s.tm s'.tm
  next : s.next_dialog ≤ s'.next_dialog
  dialogs : ∀ d dp', d < s.next_dialog → s'.dialogs d = some dp' →
    ∃ dp, s.dialogs d = some dp ∧ dp'.invite_index = dp.invite_index
  stays : ∀ d, d < s.next_dialog → (s.dialogs d).isSome → allow.gone d ∨ (s'.dialogs d).isSome

def Sys.UasOk (s : Sys) : Prop := s.tm.UasOk

instance : IsPreorder Sys (Sys.Moves allow) where
  refl _ := ⟨.refl, Nat.le_refl _, fun _ dp _ h => ⟨dp, h, rfl⟩, fun _ _ => Or.inr⟩
  trans _ _ _ h h' := by
    refine ⟨.trans h.slots h'.slots, Nat.le_trans h.next h'.next, fun d dp'' hd hIs => ?_,
      fun d hd hIs => ?_⟩
    · obtain ⟨dp', hIs', hSame'⟩ := h'.dialogs d dp'' (Nat.lt_of_lt_of_le hd h.next) hIs
      obtain ⟨dp, hIs, hSame⟩ := h.dialogs d dp' hd hIs'
      exact ⟨dp, hIs, hSame'.trans hSame⟩
    · cases h.stays d hd hIs with
      | inl hGone => exact Or.inl hGone
      | inr hStill => exact h'.stays d (Nat.lt_of_lt_of_le hd h.next) hStill

instance : Op.Stable Sys.UasOk (Sys.Moves allow) := ⟨fun _ _ h => h.slots.uasOk⟩

theorem Sys.Moves.of_tm {s : Sys} {tm : Tm} (h : Microsippy.Moves allow s.tm tm) :
    s.Moves allow { s with tm } :=
  ⟨h, Nat.le_refl _, fun _ dp _ hIs => ⟨dp, hIs, rfl⟩, fun _ _ => Or.inr⟩

theorem moves_onTm {α : Type} {P : Tm → Prop} {x : TmM α} (hx : Op.KeepsFrom P (Moves allow) x) :
    Op.KeepsFrom (fun s : Sys => P s.tm) (Sys.Moves allow) (onTm x) := by
  intro s r s' hP hRun
  obtain ⟨tm, hPart, rfl⟩ := Op.zoom_some.mp hRun
  exact .of_tm (hx _ _ _ hP hPart)

theorem acts_onTm {α : Type} {x : TmM α} (hx : Op.Keeps (Acts allow) x) :
    Op.Keeps (Sys.Moves allow) (onTm x) := by
  intro s r s' hRun
  obtain ⟨tm, hPart, rfl⟩ := Op.zoom_some.mp hRun
  exact .of_tm (hx _ _ _ hPart).moves

theorem moves_getDialog (d : Nat) : Op.Keeps (Sys.Moves allow) (getDialog d) :=
  .bind .get fun _ => .demand _

theorem moves_setDialog {s : Sys} {d : Nat} {dpp : Option Dialog}
    (h : ∀ dp', dpp = some dp' → ∃ dp, s.dialogs d = some dp ∧ dp'.invite_index = dp.invite_index)
    (hStays : dpp = none → allow.gone d) : s.Moves allow (s.setDialog d dpp) := by
  refine ⟨.refl, Nat.le_refl _, fun e dp' _ hIs => ?_, fun e _ hIs => ?_⟩
  · simp only [Sys.setDialog] at hIs
    split at hIs
    · rename_i he
      exact he ▸ h dp' hIs
    · exact ⟨dp', hIs, rfl⟩
  · simp only [Sys.setDialog]
    split
    · rename_i he
      rw [he]
      cases dpp with
      | none => exact Or.inl (hStays rfl)
      | some dp => exact Or.inr rfl
    · exact Or.inr hIs

theorem moves_modDialog (d : Nat) {f : Dialog → Dialog}
    (hf : ∀ dp : Dialog, (f dp).invite_index = dp.invite_index) :
    Op.Keeps (Sys.Moves allow) (modDialog d f) := by
  intro s r s' hRun
  simp only [modDialog, getDialog, Op.run_bind, Op.run_get, Op.andThen_ok] at hRun
  cases hd : s.dialogs d with
  | none =>
    rw [hd] at hRun
    cases hRun
  | some dp =>
    rw [hd, Op.run_demand_some, Op.andThen_ok, Op.run_modify] at hRun
    obtain ⟨-, rfl⟩ := Prod.mk.inj (Option.some.inj hRun)
    refine moves_setDialog (fun dp' hIs => ⟨dp, hd, ?_⟩) fun h => by cases h
    obtain rfl := Option.some.inj hIs
    exact hf dp

theorem moves_dialogUasSent (d : Nat) (now : UInt64) : Op.Keeps (Sys.Moves allow) (dialogUasSent d now) := by
  refine .bind (moves_getDialog d) fun _ => .bind (.demand _) fun _ => .ite (fun _ => .pure _) fun _ =>
    .bind (.attempt (acts_onTm (acts_uasSendAt _ _ _))) fun r => ?_
  cases r with
  | error e => exact .pure _
  | ok u => exact moves_modDialog _ fun _ => rfl

theorem moves_dialogHush (d : Nat) (invite_index : Option Nat) :
    Op.Keeps (Sys.Moves allow) (dialogHush d invite_index) := by
  cases invite_index with
  | none => exact .pure _
  | some index => exact .bind (.attempt (acts_onTm (acts_uasSendAt _ _ _))) fun _ => .pure _

theorem moves_dialogUasAcked (d : Nat) : Op.Keeps (Sys.Moves allow) (dialogUasAcked d) :=
  .bind (moves_getDialog d) fun _ => .bind (moves_modDialog _ fun _ => rfl) fun _ => moves_dialogHush _ _

theorem moves_dialogEnd (d : Nat) (cbp : Option UacCallbacks) :
    Op.KeepsFrom Sys.UasOk (Sys.Moves allow) (dialogEnd d cbp) := by
  refine .bind (moves_getDialog d).from fun dp => .bind (Op.Keeps.require _ _).from fun _ => ?_
  refine .bind (moves_onTm (Acts.to_moves (acts_newInDialogTransaction _))) fun index => ?_
  exact Op.Keeps.from (.bind (moves_modDialog _ fun _ => rfl) fun _ => .bind (moves_dialogUasAcked d) fun _ => .pure _)

theorem moves_dialogUasTimeout (d : Nat) : Op.Keeps (Sys.Moves allow) (dialogUasTimeout d) :=
  .bind .get fun _ => .bind (moves_getDialog d) fun _ => .ite (fun _ => .pure _) fun _ =>
    .bind (moves_dialogUasAcked d) fun _ => .pure _

theorem moves_onLocalHeap {α : Type} (len : Nat) (x : ParamsM α) :
    Op.Keeps (Sys.Moves allow) (onLocalHeap len x) := by
  intro s r s' hRun
  simp only [Op.run, onLocalHeap, Option.map_eq_some_iff] at hRun
  obtain ⟨out, -, hIs⟩ := hRun
  obtain ⟨-, rfl⟩ := Prod.mk.inj hIs
  exact Std.Refl.refl _

theorem moves_addDialog (dp : Dialog) : Op.Keeps (Sys.Moves allow) (addDialog dp) := by
  refine .bind .get fun _ => .bind (.modify fun s => ?_) fun _ => .pure _
  refine ⟨.refl, Nat.le_succ _, fun d dp' hd hIs => ⟨dp', ?_, rfl⟩, fun d hd hIs => Or.inr ?_⟩
  · simpa only [Sys.setDialog, if_neg (Nat.ne_of_lt hd)] using hIs
  · simpa only [Sys.setDialog, if_neg (Nat.ne_of_lt hd)] using hIs

theorem moves_dialogUacCtor (invite_index : Nat) (msg : Msg) :
    Op.Keeps (Sys.Moves allow) (dialogUacCtor invite_index msg) :=
  .failWith (.bind .get fun _ => .bind (moves_onLocalHeap _ _) fun _ => moves_addDialog _) _

theorem moves_dialogUasCtor (invite_index : Nat) (rpp : UasResponseParams) (hOwns : allow.owns) :
    Op.KeepsFrom Sys.UasOk (Sys.Moves allow) (dialogUasCtor invite_index rpp) := by
  refine .failWith (.bind (Op.Keeps.require _ _).from fun _ => .bind Op.Keeps.get.from fun s =>
    .bind (Op.Keeps.orElse _ _).from fun tp => .bind (moves_onLocalHeap _ _).from fun tpp => ?_) _
  refine .bind (moves_onTm (Acts.to_moves (acts_sendUasResponse _ _))) fun _ => Op.Keeps.from ?_
  exact .bind .get fun _ => .bind (acts_onTm (acts_uasSetOwner _ _ hOwns)) fun _ => moves_addDialog _

theorem moves_dialogDtor (d : Nat) (hGoes : allow.gone d) :
    Op.Keeps (Sys.Moves allow) (dialogDtor d) := by
  refine .bind (moves_getDialog d) fun dp => ?_
  have hGone : Op.Keeps (Sys.Moves allow) (Op.modify (ε := TmError) (Sys.setDialog d none)) :=
    .modify fun _ => moves_setDialog (fun _ h => by cases h) fun _ => hGoes
  cases dp.invite_index with
  | none => exact hGone
  | some index =>
    exact .bind (moves_dialogUasAcked d) fun _ =>
      .bind (.attempt (acts_onTm (acts_uasClearOwner _ _))) fun _ => hGone

theorem moves_dialogAcceptUasBye (d tx_index : Nat) (msg : Msg) :
    Op.Keeps (Sys.Moves allow) (dialogAcceptUasBye d tx_index msg) :=
  .bind .get fun _ => .bind (moves_getDialog d) fun _ => .bind (.require _ _) fun _ =>
    .bind (.require _ _) fun _ => .bind (.require _ _) fun _ => .bind (moves_modDialog _ fun _ => rfl) fun _ =>
      moves_dialogUasAcked d

theorem moves_dialogHandleUasTransaction (d tx_index : Nat) (msg : Msg) :
    Op.KeepsFrom Sys.UasOk (Sys.Moves allow) (dialogHandleUasTransaction d tx_index msg) :=
  .bind (moves_dialogAcceptUasBye d tx_index msg).from fun _ =>
    moves_onTm (Acts.to_moves (acts_sendUasResponse _ _))

/-! ## What a step may do -/

/-- A callback of a client transaction. -/
def Event.isNotice : Event → Bool
  | .response _ _ _ => true
  | .timeout _ _ _ => true
  | _ => false

/-- A turn that sends a response again and puts off Timer J, which runs already. -/
structure Tm.PostponesJ (now : UInt64) (i : Nat) (tm : Tm) : Prop where
  inTable : i < tm.max_transactions
  active : (tm.tx i).active
  role : (tm.tx i).role = .UAS
  early : (tm.tx i).timerDue now = false
  sending : (tm.tx i).notSending now = false
  postponed : (tm.tx i).toCtl.JPostponed (tm.tx i).timers now

/-- A frame whose return may release a slot that is no client's any more. -/
def Frame.Stale (tm : Tm) : Frame → Prop
  | .uacTimeout index _ _ => (tm.tx index).role ≠ .UAC
  | .response index _ _ => (tm.tx index).role ≠ .UAC
  | _ => False

namespace World

/-- A step that sends a response for which Timer J runs, and puts Timer J off. -/
def PostponesJ (w : World) (l : Label) : Prop :=
  ∃ now i outp stack, w.stack = .run now i outp :: stack ∧ l = .turn 0 ∧ w.tm.PostponesJ now i

/-- A provisional response to an INVITE that is settled, its final response never reported. -/
def HearsLate (w : World) (l : Label) (i : Nat) : Prop :=
  ∃ now msg code tid, l = .call (.handleIncoming now (some msg)) ∧ msg.sline = .res code ∧
    msg.getTid w.tm.mem = some tid ∧ w.tm.findUac tid = some i ∧ code.1 / 100 = 1 ∧ w.tm.Unreported i

/-- A slot's next request that gets past the checks. -/
def Renews (w : World) (l : Label) (i : Nat) : Prop :=
  (∃ payload ehp, l = .call (.nextTransaction i payload ehp)) ∧ w.tm.MayRenew i

/-- A drop of a slot that is its own parent. -/
def DropsTwice (w : World) (l : Label) : Prop :=
  ∃ i, l = .call (.dropTransaction i) ∧ w.tm.ChildOf i i

/-- What a step may do to the slots beyond what every step may. -/
def grants (w : World) (l : Label) : Allow where
  stale := ∃ rval f stack, w.stack = f :: stack ∧ l = .ret rval ∧ f.Stale w.tm
  rearm := w.PostponesJ l
  owns := ∃ index rpp, l = .call (.dialogUasCtor index rpp)
  renew := w.Renews l
  late := w.HearsLate l
  twice := w.DropsTwice l
  gone := fun d => l = .call (.dialogDtor d)

/-- What a step tells the application of a client transaction. -/
inductive Tells (w : World) (l : Label) : Event → Tm → Prop
  | response (now : UInt64) (msg : Msg) (code : StatusCode) (tid : Tid) (i : Nat) (tm : Tm)
      (hl : l = .call (.handleIncoming now (some msg)))
      (hLine : msg.sline = .res code) (hTid : msg.getTid w.tm.mem = some tid)
      (hRun : (handleIncomingResponse now msg code tid).run w.tm = some (.ok (i, true), tm)) :
      Tells w l (.response i (tm.tx i).born code) tm
  | timeout (now : UInt64) (rval : Int) (i : Nat) (outp : Option RunOut) (stack : List Frame)
      (rest : TimeoutRest) (timeout_id : TimeoutId) (tm : Tm) (hStack : w.stack = .run now i outp :: stack)
      (hl : l = .turn rval) (hRole : (w.tm.tx i).role = .UAC)
      (hRun : (uacRun i now).run w.tm = some (.ok (.timeout rest true timeout_id), tm)) :
      Tells w l (.timeout i (tm.tx i).born timeout_id) tm

/-! ## Steps -/

/-- What a client transaction's callbacks were told. -/
def notices (w : World) : List Event := w.log.filter Event.isNotice

theorem notices_emit {w : World} {e : Event} (h : e.isNotice = false) :
    (w.emit e).notices = w.notices := by
  rw [notices, emit, List.filter_append, List.filter_cons_of_neg (by simp [h]), List.filter_nil,
    List.append_nil, notices]

theorem notices_told {w : World} {e : Event} (h : e.isNotice = true) :
    (w.emit e).notices = w.notices ++ [e] := by
  rw [notices, emit, List.filter_append, List.filter_cons_of_pos h, List.filter_nil, notices]

/-- The system got there by moves, and told one client transaction's callbacks at most. -/
structure Went (allow : Allow) (told : Event → Tm → Prop) (w w' : World) : Prop where
  moves : w.toSys.Moves allow w'.toSys
  notices : w'.notices = w.notices ∨ ∃ e, told e w'.tm ∧ w'.notices = w.notices ++ [e]

/-- Whatever comes of a state, the system went there. -/
def Goes (allow : Allow) (told : Event → Tm → Prop) (w : World) (o : Option World) : Prop :=
  ∀ w', o = some w' → Went allow told w w'

theorem Goes.same {w w' : World} (h : w'.toSys = w.toSys) (hNotices : w'.notices = w.notices) :
    Goes allow told w (some w') := by
  intro u hu
  obtain rfl := Option.some.inj hu
  exact ⟨h ▸ Std.Refl.refl _, Or.inl hNotices⟩

theorem Goes.tell {w : World} {e : Event} {f : Frame} (hNotice : e.isNotice = true)
    (h : told e w.tm) : Goes allow told w (some ((w.emit e).push f)) := by
  intro u hu
  obtain rfl := Option.some.inj hu
  exact ⟨Std.Refl.refl _, Or.inr ⟨e, h, notices_told hNotice⟩⟩

theorem Goes.emit {w : World} {e : Event} {f : Frame} (hNotice : e.isNotice = false) :
    Goes allow told w (some ((w.emit e).push f)) := .same rfl (notices_emit hNotice)

theorem Goes.none {w : World} : Goes allow told w none := fun _ h => by cases h

theorem Goes.of_same {w u : World} {o : Option World} (h : u.toSys = w.toSys)
    (hNotices : u.notices = w.notices) (hu : Goes allow told u o) : Goes allow told w o := by
  intro w' ho
  obtain ⟨hMoves, hTold⟩ := hu w' ho
  exact ⟨h ▸ hMoves, hNotices ▸ hTold⟩

theorem Goes.of_push {w : World} {f : Frame} {o : Option World} (h : Goes allow told (w.push f) o) :
    Goes allow told w o := .of_same (u := w.push f) rfl rfl h

theorem Goes.of_stack {w : World} {stack : List Frame} {o : Option World}
    (h : Goes allow told { w with stack } o) : Goes allow told w o :=
  .of_same (u := { w with stack }) rfl rfl h

theorem Goes.of_send {w : World} (i : Nat) (rval : Int) {o : Option World}
    (h : Goes allow told (w.send i rval) o) : Goes allow told w o :=
  .of_same (u := w.send i rval) rfl (notices_emit rfl) h

theorem Goes.after {α : Type} {P : Sys → Prop} {x : SysM α} {k : Except TmError α → World → Option World}
    {w : World} (hOk : w.tm.UasOk) (hx : Op.KeepsFrom P (Sys.Moves allow) x) (hP : P w.toSys)
    (hk : ∀ r s, x.run w.toSys = some (r, s) → s.tm.UasOk →
      Goes allow told { w with toSys := s } (k r { w with toSys := s })) : Goes allow told w (w.after x k) := by
  intro w' hAfter
  rw [World.after] at hAfter
  cases hRun : x.run w.toSys with
  | none =>
    rw [hRun] at hAfter
    cases hAfter
  | some out =>
    obtain ⟨r, s⟩ := out
    rw [hRun] at hAfter
    have hMoves : w.toSys.Moves allow s := hx _ _ _ hP hRun
    obtain ⟨hRest, hTold⟩ := hk r s hRun (hMoves.slots.uasOk hOk) w' hAfter
    exact ⟨IsTrans.trans _ _ _ hMoves hRest, hTold⟩

theorem Goes.afterAny {α : Type} {x : SysM α} {k : Except TmError α → World → Option World} {w : World}
    (hOk : w.tm.UasOk) (hx : Op.Keeps (Sys.Moves allow) x)
    (hk : ∀ r s, x.run w.toSys = some (r, s) → s.tm.UasOk →
      Goes allow told { w with toSys := s } (k r { w with toSys := s })) : Goes allow told w (w.after x k) :=
  .after (P := fun _ => True) hOk hx.from trivial hk

theorem Goes.reply {w : World} (r : Except TmError Answer) : Goes allow told w (w.reply r) :=
  .same rfl (notices_emit rfl)

theorem Goes.next {w : World} {now : UInt64} {i : Nat} {outp : Option RunOut} :
    Goes allow told w (w.next now i outp) := .same rfl rfl

theorem goes_answerIndex {w : World} {x : SysM Nat} (hOk : w.tm.UasOk)
    (hx : Op.KeepsFrom Sys.UasOk (Sys.Moves allow) x) : Goes allow told w (w.answerIndex x) :=
  .after hOk hx hOk fun _ _ _ _ => .reply _

theorem goes_answerUnit {w : World} {x : SysM Unit} (hOk : w.tm.UasOk)
    (hx : Op.KeepsFrom Sys.UasOk (Sys.Moves allow) x) : Goes allow told w (w.answerUnit x) :=
  .after hOk hx hOk fun _ _ _ _ => .reply _

theorem moves_acts {α : Type} {x : TmM α} (hx : Op.KeepsFrom Tm.UasOk (Acts allow) x) :
    Op.KeepsFrom Sys.UasOk (Sys.Moves allow) (onTm x) := moves_onTm (Acts.to_moves hx)

/-! ## Incoming messages -/

theorem goes_responseDone {w : World} {index : Nat} {code : StatusCode} (hOk : w.tm.UasOk)
    (hEither : allow.stale ∨ (w.tm.tx index).role = .UAC) : Goes allow told w (w.responseDone index code) :=
  .after hOk (moves_onTm (Acts.to_moves (acts_uacResponseDone index code)))
    (hEither.imp_right fun hRole => ⟨hOk, hRole⟩) fun _ _ _ _ => .reply _

/-- The slot a response was for is still a client's when it has been handled. -/
theorem handleIncomingResponse_role {now : UInt64} {msg : Msg} {code : StatusCode} {tid : Tid}
    {tm tm' : Tm} {i : Nat} {told : Bool} (hOk : tm.UasOk)
    (hRun : (handleIncomingResponse now msg code tid).run tm = some (.ok (i, told), tm')) :
    (tm'.tx i).role = .UAC := by
  obtain ⟨_, _, hGet, hRun⟩ := Op.bind_ok.mp hRun
  obtain ⟨rfl, rfl⟩ := Op.get_ok.mp hGet
  obtain ⟨j, _, hMatch, hRun⟩ := Op.bind_ok.mp hRun
  obtain ⟨hFound, rfl⟩ := Op.orElse_ok.mp hMatch
  obtain ⟨deliver, _, hDone, hRun⟩ := Op.bind_ok.mp hRun
  obtain ⟨_, _, hGet, hRun⟩ := Op.bind_ok.mp hRun
  obtain ⟨rfl, rfl⟩ := Op.get_ok.mp hGet
  obtain ⟨hIs, rfl⟩ := Op.pure_ok.mp hRun
  obtain ⟨rfl, -⟩ := Prod.mk.inj hIs
  have hUac : tm.Uac j := ⟨hOk, (Tm.findUac_uac hFound).2⟩
  have hActs : Acts { late := fun _ => True } tm _ :=
    acts_uacResponded j now msg code _ _ _ ⟨hUac, fun _ _ => trivial⟩ hDone
  exact (hActs.uac hUac).2

theorem goes_incomingResponse {w : World} {now : UInt64} {msg : Msg} {code : StatusCode} {tid : Tid}
    (hOk : w.tm.UasOk) (hLate : ∀ i, w.tm.findUac tid = some i → code.1 / 100 = 1 →
      w.tm.Unreported i → allow.late i)
    (hTold : ∀ i tm, (handleIncomingResponse now msg code tid).run w.tm = some (.ok (i, true), tm) →
      told (.response i (tm.tx i).born code) tm) :
    Goes allow told w (w.incomingResponse now msg code tid) := by
  refine .after hOk (moves_onTm (Acts.to_moves (acts_handleIncomingResponse now msg code tid)))
    ⟨hOk, hLate⟩ fun r s hRun hOk' => ?_
  cases r with
  | error e => exact .reply _
  | ok a =>
    obtain ⟨index, deliver⟩ := a
    obtain ⟨tm, hPart, rfl⟩ := Op.zoom_some.mp hRun
    cases deliver with
    | true => exact .tell rfl (hTold index tm hPart)
    | false => exact goes_responseDone hOk' (Or.inr (handleIncomingResponse_role hOk hPart))

theorem goes_incomingRequest {w : World} {now : UInt64} {msg : Msg} {method : Method} {tid : Tid}
    (hOk : w.tm.UasOk) : Goes allow told w (w.incomingRequest now msg method tid) := by
  refine .afterAny hOk (acts_onTm (acts_handleIncomingRequest now msg method tid)) fun r s _ hOk' => ?_
  cases r with
  | error e => exact .reply _
  | ok a =>
    cases a with
    | ack2xx index owner =>
      cases owner with
      | none => exact .reply _
      | some d =>
        exact .afterAny hOk' (moves_dialogUasAcked d) fun _ _ _ _ => .reply _
    | ack index => exact .reply _
    | cancel index told =>
      cases told with
      | true => exact .emit rfl
      | false => exact .reply _
    | retransmit index => exact .reply _
    | new => exact .emit rfl

theorem goes_handleIncoming {w : World} {now : UInt64} {msg : Option Msg} (hOk : w.tm.UasOk) :
    Goes (w.grants (.call (.handleIncoming now msg))) (w.Tells (.call (.handleIncoming now msg))) w
      (w.handleIncoming now msg) := by
  cases msg with
  | none => exact .reply _
  | some msg =>
    simp only [World.handleIncoming]
    split
    · exact .reply _
    · rename_i tid code hTid hLine
      exact goes_incomingResponse hOk
        (fun i hFound hCode hOpen => ⟨now, msg, code, tid, rfl, hLine, hTid, hFound, hCode, hOpen⟩)
        fun i tm hRun => .response now msg code tid i tm rfl hLine hTid hRun
    · exact goes_incomingRequest hOk

theorem goes_perform {w : World} {c : Call} (hOk : w.tm.UasOk) :
    Goes (w.grants (.call c)) (w.Tells (.call c)) w (w.perform c) := by
  cases c with
  | newUacTr tpp => exact goes_answerIndex hOk (moves_acts (acts_newUacTr tpp))
  | newUasTr tpp => exact goes_answerIndex hOk (moves_onTm (moves_newUasTr tpp))
  | newInDialogTransaction tpp =>
    exact goes_answerIndex hOk (moves_acts (acts_newInDialogTransaction tpp))
  | nextTransaction index payload ehp =>
    exact .after hOk (moves_onTm (Acts.to_moves (acts_nextTransaction index payload ehp)))
      ⟨hOk, fun hMay => ⟨⟨payload, ehp, rfl⟩, hMay⟩⟩ fun _ _ _ _ => .reply _
  | cancel index => exact goes_answerUnit hOk (moves_acts (acts_cancel index))
  | sendUasResponse index rpp => exact goes_answerUnit hOk (moves_acts (acts_sendUasResponse index rpp))
  | uasCancelOk cancelp index =>
    exact goes_answerUnit hOk (moves_onTm (moves_uasCancelOk cancelp index))
  | uasTrCancelled cancelp index rpp =>
    exact goes_answerUnit hOk (moves_onTm (moves_uasTrCancelled cancelp index rpp))
  | dropTransaction index =>
    exact .after hOk (moves_onTm (Acts.to_moves (acts_dropTransaction index)))
      (fun hOwn => ⟨index, rfl, hOwn⟩) fun _ _ _ _ => .reply _
  | setTimerPolicy index policy =>
    exact goes_answerUnit hOk (acts_onTm (acts_setTimerPolicy index policy)).from
  | run now report => exact .same rfl rfl
  | handleIncoming now msg => exact goes_handleIncoming hOk
  | dialogUacCtor index msg => exact goes_answerIndex hOk (moves_dialogUacCtor index msg).from
  | dialogUasCtor index rpp => exact goes_answerIndex hOk (moves_dialogUasCtor index rpp ⟨index, rpp, rfl⟩)
  | dialogSetNoAckHandler d handler => exact goes_answerUnit hOk (moves_modDialog d (f := fun dp => { dp with no_ack_handler := handler })
      fun _ => rfl).from
  | dialogDtor d => exact goes_answerUnit hOk (moves_dialogDtor d rfl).from
  | dialogAcceptUasBye d index msg => exact goes_answerUnit hOk (moves_dialogAcceptUasBye d index msg).from
  | dialogHandleUasTransaction d index msg =>
    exact goes_answerUnit hOk (moves_dialogHandleUasTransaction d index msg)
  | dialogEnd d cbp => exact goes_answerIndex hOk (moves_dialogEnd d cbp)

/-! ## A turn -/

theorem goes_uacTimeoutDone {w : World} {now : UInt64} {i index : Nat} {rest : TimeoutRest}
    {outp : Option RunOut} (hOk : w.tm.UasOk) (hEither : allow.stale ∨ (w.tm.tx index).role = .UAC) :
    Goes allow told w (w.uacTimeoutDone now i index rest outp) := by
  refine .after hOk (moves_onTm (Acts.to_moves (acts_uacTimedOut index rest)))
    (hEither.imp_right fun hRole => ⟨hOk, hRole⟩) fun r s _ _ => ?_
  cases r with
  | error e => exact .reply _
  | ok u => exact .next

theorem goes_uacVisit {w : World} {now : UInt64} {i : Nat} {outp : Option RunOut} {rval : Int}
    (hOk : w.tm.UasOk) (hRole : (w.tm.tx i).role = .UAC)
    (hTold : ∀ rest timeout_id tm,
      (uacRun i now).run w.tm = some (.ok (.timeout rest true timeout_id), tm) →
        told (.timeout i (tm.tx i).born timeout_id) tm) :
    Goes allow told w (w.uacVisit now i outp rval) := by
  refine .after hOk (moves_onTm (Acts.to_moves (acts_uacRun i now))) ⟨hOk, hRole⟩ fun r s hRun hOk' => ?_
  obtain ⟨tm, hPart, rfl⟩ := Op.zoom_some.mp hRun
  have hActs : Acts {} w.tm tm := acts_uacRun i now _ _ _ ⟨hOk, hRole⟩ hPart
  have hRole' : (tm.tx i).role = .UAC := (hActs.uac ⟨hOk, hRole⟩).2
  cases r with
  | error e => exact .reply _
  | ok turn =>
    cases turn with
    | «over» => exact .next
    | idle => exact .next
    | timeout rest deliver timeout_id =>
      cases deliver with
      | true =>
        exact .of_push (f := .run now (i + 1) _) (.tell (w := World.push _ { w with tm })
          (f := .uacTimeout i rest _) rfl (hTold rest timeout_id tm hPart))
      | false => exact goes_uacTimeoutDone hOk' (Or.inr hRole')
    | send =>
      refine .of_send i rval ?_
      simp only
      split
      · exact .reply _
      · refine .after hOk' (moves_onTm (Acts.to_moves (acts_uacSent i now))) ⟨hOk', hRole'⟩ fun r s _ _ => ?_
        cases r with
        | error e => exact .reply _
        | ok bye => exact .next

theorem goes_countTimeout {w : World} : Goes allow told w w.countTimeout := by
  rcases w with ⟨s, stack, log⟩
  cases stack with
  | nil => exact .none
  | cons f stack =>
    cases f with
    | run now i outp => exact .same rfl rfl
    | _ => exact .none

theorem goes_dialogGiveUp {w : World} {d : Nat} {handler : Bool} (hOk : w.tm.UasOk) :
    Goes allow told w (w.dialogGiveUp d handler countTimeout) := by
  refine .after hOk (.attempt (moves_dialogEnd d none)) hOk fun r s _ _ => ?_
  cases handler with
  | true => exact .emit rfl
  | false => exact goes_countTimeout

theorem goes_dialogTimeout {w : World} {d : Nat} (hOk : w.tm.UasOk) :
    Goes allow told w (w.dialogTimeout d) := by
  simp only [World.dialogTimeout]
  split
  · exact .none
  · refine .afterAny hOk (moves_dialogUasTimeout d) fun r s _ hOk' => ?_
    rcases r with e | no_ack
    · exact .same rfl rfl
    · rcases no_ack with _ | no_ack
      · exact .same rfl rfl
      · cases no_ack with
        | true => exact .emit rfl
        | false => exact goes_dialogGiveUp hOk'

theorem goes_uasVisit {w : World} {now : UInt64} {i : Nat} {outp : Option RunOut} {rval : Int}
    (hOk : w.tm.UasOk) (hIn : i < w.tm.max_transactions) (hActive : (w.tm.tx i).active)
    (hRole : (w.tm.tx i).role = .UAS)
    (hRearm : rval = 0 → w.tm.PostponesJ now i → allow.rearm) :
    Goes allow told w (w.uasVisit now i outp rval) := by
  refine .after hOk (moves_onTm (Acts.to_moves (acts_uasRun i now))) hRole fun r s hRun hOk' => ?_
  obtain ⟨tm, hPart, rfl⟩ := Op.zoom_some.mp hRun
  cases r with
  | error e => exact .reply _
  | ok turn =>
    cases turn with
    | idle => exact .next
    | timeout timer no_ack owner =>
      cases timer with
      | H =>
        refine .of_push (f := .run now (i + 1) outp) ?_
        cases no_ack with
        | true => exact .emit rfl
        | false => exact goes_countTimeout
      | L =>
        cases owner with
        | none => exact .next
        | some d => exact .of_push (goes_dialogTimeout hOk')
      | _ => exact .next
    | send =>
      obtain ⟨hEarly, hLive, hSending, rfl⟩ := uasRun_send hPart
      refine .of_send i rval ?_
      simp only
      split
      · exact .reply _
      · rename_i hZero
        refine .after hOk' (moves_onTm (Acts.to_moves (acts_uasSent i now))) ?_ fun r s _ hOk₂ => ?_
        · have hStarted : ((w.tm.set i { w.tm.tx i with toCtl := (w.tm.tx i).startTimerL now }).tx i).UasOk :=
            hOk' i (by simp [Ctl.startTimerL_role, hRole])
          rw [Tm.set_same] at hStarted
          simp only [World.send, World.emit, Tm.set_same]
          refine ⟨?_, ?_, hStarted, fun hPut => hRearm (not_not.mp hZero) ?_⟩
          · rw [Ctl.startTimerL_role, hRole]
          · rwa [Ctl.startTimerL_state]
          · exact ⟨hIn, hActive, hRole, hEarly, hSending, Ctl.startTimerL_postponed (hOk i hRole).timed hPut⟩
        cases r with
        | error e => exact .reply _
        | ok owner =>
          refine .afterAny hOk₂ ?_ fun _ s _ _ => ?_
          · cases owner with
            | none => exact .pure _
            | some d => exact moves_dialogUasSent d now
          · simp only
            split
            · exact .none
            · exact .next

theorem goes_visit {w : World} {now : UInt64} {i : Nat} {outp : Option RunOut} {rval : Int}
    (hOk : w.tm.UasOk) (hRearm : rval = 0 → w.tm.PostponesJ now i → allow.rearm)
    (hTold : (w.tm.tx i).role = .UAC → ∀ rest timeout_id tm,
      (uacRun i now).run w.tm = some (.ok (.timeout rest true timeout_id), tm) →
        told (.timeout i (tm.tx i).born timeout_id) tm) :
    Goes allow told w (w.visit now i outp rval) := by
  simp only [World.visit]
  split
  · exact .reply _
  · rename_i hIn
    split
    · exact .next
    · rename_i hActive
      cases hRole : (w.tm.tx i).role with
      | UAC => exact goes_uacVisit hOk hRole (hTold hRole)
      | UAS => exact goes_uasVisit hOk (Nat.lt_of_not_le hIn) (by simpa using hActive) hRole hRearm

theorem goes_resume {w : World} {rval : Int} {f : Frame} (hOk : w.tm.UasOk)
    (hStale : f.Stale w.tm → allow.stale) : Goes allow told w (w.resume rval f) := by
  have hEither : ∀ index, ((w.tm.tx index).role ≠ .UAC → f.Stale w.tm) →
      allow.stale ∨ (w.tm.tx index).role = .UAC := by
    intro index hIs
    by_cases hRole : (w.tm.tx index).role = .UAC
    · exact Or.inr hRole
    · exact Or.inl (hStale (hIs hRole))
  cases f with
  | run now i outp => exact .none
  | uacTimeout index rest born =>
    simp only [World.resume]
    split
    · exact .of_stack (goes_uacTimeoutDone hOk (hEither index id))
    · exact .none
  | noAck => exact goes_countTimeout
  | dialogNoAck d handler =>
    simp only [World.resume]
    split
    · exact goes_countTimeout
    · exact goes_dialogGiveUp hOk
  | dialogHandler => exact goes_countTimeout
  | response index code born => exact goes_responseDone hOk (hEither index id)
  | uasCancel index => exact .reply _
  | incomingRequest tid => exact .reply _

/-- What a step does to the slots and tells of them. -/
theorem step_went {w w' : World} {l : Label} (hOk : w.tm.UasOk) (hStep : w.step l = some w') :
    Went (w.grants l) (w.Tells l) w w' := by
  have hGoes : Goes (w.grants l) (w.Tells l) w (w.step l) := by
    cases l with
    | call c =>
      simp only [World.step]
      split
      · exact goes_perform hOk
      · exact .none
    | turn rval =>
      simp only [World.step]
      split
      · rename_i now i outp stack hStack
        refine .of_stack (goes_visit hOk (fun hZero hPut => ?_) ?_)
        · subst hZero
          exact ⟨now, i, outp, stack, hStack, rfl, hPut⟩
        · exact fun hRole rest timeout_id tm hRun =>
            .timeout now rval i outp stack rest timeout_id tm hStack rfl hRole hRun
      · exact .none
    | ret rval =>
      simp only [World.step]
      split
      · exact .none
      · rename_i f stack hStack
        exact .of_stack (goes_resume hOk fun hStale =>
          ⟨rval, f, stack, hStack, rfl, hStale⟩)
  exact hGoes w' hStep

theorem step_moves {w w' : World} {l : Label} (hOk : w.tm.UasOk) (hStep : w.step l = some w') :
    Moves (w.grants l) w.tm w'.tm := (step_went hOk hStep).moves.slots

theorem start_uasOk {p : CtorParams} {tm : Tm} (h : Tm.ctor p = some tm) : tm.UasOk := by
  intro j hRole
  rw [(Tm.ctor_fresh h).1] at hRole
  cases hRole

theorem start_numbered {p : CtorParams} {tm : Tm} (h : Tm.ctor p = some tm) : tm.Numbered := by
  intro j
  rw [(Tm.ctor_fresh h).1, (Tm.ctor_fresh h).2.1]
  exact Nat.one_pos

theorem start_sound {p : CtorParams} {tm : Tm} (h : Tm.ctor p = some tm) : tm.Sound := by
  intro j
  rw [(Tm.ctor_fresh h).1]
  exact ⟨⟨fun h => (by cases h), fun h => absurd rfl h⟩, fun _ h => (by cases h)⟩

/-- What holds of the slots in every reachable state. -/
theorem ReachableBy.slots {ok : World → Label → Prop} {w : World} (h : ReachableBy ok w) :
    w.tm.UasOk ∧ w.tm.Numbered := by
  obtain ⟨p, tm, hCtor, hRun⟩ := h
  induction hRun with
  | refl => exact ⟨start_uasOk hCtor, start_numbered hCtor⟩
  | snoc _ _ hStep ih =>
    have hMoves := step_moves ih.1 hStep
    exact ⟨hMoves.uasOk ih.1, hMoves.numbered ih.2⟩

theorem ReachableBy.sound {ok : World → Label → Prop} {w : World} (h : ReachableBy ok w) :
    w.tm.Sound := by
  obtain ⟨p, tm, hCtor, hRun⟩ := h
  induction hRun with
  | refl => exact start_sound hCtor
  | snoc hFirst _ hStep ih =>
    obtain ⟨hOk, hNumbered⟩ := ReachableBy.slots ⟨p, tm, hCtor, hFirst⟩
    exact (step_moves hOk hStep).sound ih hNumbered

theorem run_serial_le {ok : World → Label → Prop} {w w' : World} (hOk : w.tm.UasOk)
    (hRun : Transition.Run step ok w w') : w.tm.serial ≤ w'.tm.serial ∧ w'.tm.UasOk := by
  induction hRun with
  | refl => exact ⟨Nat.le_refl _, hOk⟩
  | snoc _ _ hStep ih =>
    have hMoves := step_moves ih.2 hStep
    exact ⟨Nat.le_trans ih.1 hMoves.serial_le, hMoves.uasOk ih.2⟩

/-- A client transaction over a run. -/
theorem run_client {ok : World → Label → Prop} {w w' : World} {undone : Undone} {i : Nat}
    (hKeeps : ∀ w l, ok w l → (w.Renews l i → undone.renewed) ∧ (w.HearsLate l i → undone.late))
    (hOk : w.tm.UasOk) (hRun : Transition.Run step ok w w') (hBorn : (w'.tm.tx i).born < w.tm.serial)
    (hRole : (w'.tm.tx i).role = .UAC) (hActive : (w'.tm.tx i).active = true) :
    (w.tm.tx i).SameLife undone (w'.tm.tx i) := by
  induction hRun with
  | refl => exact Std.Refl.refl _
  | @snoc t u l hFirst hStepOk hStep ih =>
    obtain ⟨hSerial, hOkT⟩ := run_serial_le hOk hFirst
    obtain ⟨hNew, hLate⟩ := hKeeps t l hStepOk
    have hLife := (step_moves hOkT hStep).client hActive (Nat.lt_of_lt_of_le hBorn hSerial) hRole
    have hWas := ih (hLife.life.born ▸ hBorn) (hLife.life.role ▸ hRole) (hLife.life.active ▸ hActive)
    exact IsTrans.trans _ _ _ hWas (hLife.mono hNew hLate)

end World

end Microsippy
