import Microsippy.AckMatch

/-! # What is handed to `send_to`

A step hands one message to `send_to` at most: the request or response stored in the slot whose turn it
is.
-/

namespace Microsippy

set_option autoImplicit false

/-- What was handed to `send_to` for transaction `b` of slot `i`: the bytes and where to. -/
def Event.message (i b : Nat) : Event → Option (Bytes × Addr)
  | .send index born raw target _ => if index = i ∧ born = b then some (raw, target) else none
  | _ => none

/-- The message a slot stores. -/
def Tm.stored (i : Nat) (tm : Tm) : Bytes × Addr := (tm.mem.read (tm.tx i).raw, (tm.tx i).target)

namespace World

variable {i b : Nat} {w w' : World}

/-- All that was handed to `send_to` for transaction `b` of slot `i`. -/
def messages (i b : Nat) (w : World) : List (Bytes × Addr) := w.log.filterMap (Event.message i b)

theorem messages_emit {e : Event} (h : e.message i b = none) :
    (w.emit e).messages i b = w.messages i b := by
  rw [messages, emit, List.filterMap_append, List.filterMap_cons_none h, List.filterMap_nil,
    List.append_nil, messages]

theorem messages_send {rval : Int} (hBorn : (w.tm.tx i).born = b) :
    (w.send i rval).messages i b = w.messages i b ++ [w.tm.stored i] := by
  have hIs : (Event.send i (w.tm.tx i).born (w.tm.mem.read (w.tm.tx i).raw) (w.tm.tx i).target
      rval).message i b = some (w.tm.stored i) := if_pos ⟨rfl, hBorn⟩
  rw [messages, send, emit, List.filterMap_append, List.filterMap_cons_some hIs, List.filterMap_nil,
    messages]

theorem messages_sendOther {j : Nat} {rval : Int} (h : ¬ (j = i ∧ (w.tm.tx j).born = b)) :
    (w.send j rval).messages i b = w.messages i b := messages_emit (if_neg h)

/-! ## Steps that send nothing -/

/-- Whatever comes of it, the messages are those of `w`. -/
def Still (i b : Nat) (w : World) (o : Option World) : Prop :=
  ∀ w', o = some w' → w'.messages i b = w.messages i b

theorem Still.same (h : w'.log = w.log) : Still i b w (some w') := by
  rintro u hu
  obtain rfl := Option.some.inj hu
  rw [messages, h, messages]

theorem Still.stuck : Still i b w none := fun _ h => by cases h

theorem Still.emit {e : Event} (h : e.message i b = none) : Still i b w (some (w.emit e)) := by
  rintro u hu
  obtain rfl := Option.some.inj hu
  exact messages_emit h

theorem Still.told {e : Event} {f : Frame} (h : e.message i b = none) :
    Still i b w (some ((w.emit e).push f)) := by
  rintro u hu
  obtain rfl := Option.some.inj hu
  exact messages_emit h

theorem Still.after {α : Type} {x : SysM α} {k : Except TmError α → World → Option World}
    (hk : ∀ r s, x.run w.toSys = some (r, s) → Still i b w (k r { w with toSys := s })) :
    Still i b w (w.after x k) := by
  rintro w' hAfter
  rw [World.after] at hAfter
  cases hRun : x.run w.toSys with
  | none =>
    rw [hRun] at hAfter
    cases hAfter
  | some out =>
    rw [hRun] at hAfter
    exact hk out.1 out.2 hRun w' hAfter

theorem Still.reply (r : Except TmError Answer) : Still i b w (w.reply r) := .emit rfl

theorem Still.finish (r : Except TmError Unit) (outp : Option RunOut) :
    Still i b w (w.finish r outp) := .reply _

theorem still_answer {α : Type} {x : SysM α} {f : Except TmError α → Except TmError Answer} :
    Still i b w (w.after x fun r w => w.reply (f r)) := .after fun _ _ _ => .reply _

theorem still_uacTimeoutDone {now : UInt64} {j index : Nat} {rest : TimeoutRest}
    {outp : Option RunOut} : Still i b w (w.uacTimeoutDone now j index rest outp) := by
  apply Still.after
  rintro r s -
  cases r with
  | error e => exact .finish _ _
  | ok u => exact .same rfl

theorem still_countTimeout : Still i b w w.countTimeout := by
  rw [countTimeout]
  split
  · exact .same rfl
  · exact .stuck

theorem still_dialogGiveUp {d : Nat} {handler : Bool} :
    Still i b w (w.dialogGiveUp d handler countTimeout) := by
  apply Still.after
  rintro r s -
  cases handler with
  | true => exact .told rfl
  | false => exact still_countTimeout (w := { w with toSys := s })

theorem still_dialogTimeout {d : Nat} : Still i b w (w.dialogTimeout d) := by
  rw [dialogTimeout]
  split
  · exact .stuck
  · apply Still.after
    rintro r s -
    rcases r with e | no_ack
    · exact .same rfl
    · rcases no_ack with _ | no_ack
      · exact .same rfl
      · cases no_ack with
        | true => exact .told rfl
        | false => exact still_dialogGiveUp (w := { w with toSys := s })

theorem still_incomingResponse {now : UInt64} {msg : Msg} {code : StatusCode} {tid : Tid} :
    Still i b w (w.incomingResponse now msg code tid) := by
  apply Still.after
  rintro r s -
  rcases r with e | ⟨index, told⟩
  · exact .reply _
  · cases told with
    | true => exact .told rfl
    | false => exact still_answer (w := { w with toSys := s })

theorem still_incomingRequest {now : UInt64} {msg : Msg} {method : Method} {tid : Tid} :
    Still i b w (w.incomingRequest now msg method tid) := by
  apply Still.after
  rintro r s -
  rcases r with e | a
  · exact .reply _
  · cases a with
    | ack2xx index owner =>
      cases owner with
      | none => exact .reply _
      | some d => exact still_answer (w := { w with toSys := s })
    | ack index => exact .reply _
    | cancel index told =>
      cases told with
      | true => exact .told rfl
      | false => exact .reply _
    | retransmit index => exact .reply _
    | new => exact .told rfl

theorem still_handleIncoming {now : UInt64} {msg : Option Msg} :
    Still i b w (w.handleIncoming now msg) := by
  cases msg with
  | none => exact .reply _
  | some msg =>
    simp only [handleIncoming]
    split
    · exact .reply _
    · exact still_incomingResponse
    · exact still_incomingRequest

theorem still_perform (c : Call) : Still i b w (w.perform c) := by
  cases c with
  | run now report => exact .same rfl
  | handleIncoming now msg => exact still_handleIncoming
  | _ => exact still_answer

theorem still_resume {rval : Int} {f : Frame} : Still i b w (w.resume rval f) := by
  cases f with
  | run now j outp => exact .stuck
  | uacTimeout index rest born =>
    simp only [resume]
    split
    · rename_i now j outp stack _
      exact still_uacTimeoutDone (w := { w with stack })
    · exact .stuck
  | noAck => exact still_countTimeout
  | dialogNoAck d handler =>
    simp only [resume]
    split
    · exact still_countTimeout
    · exact still_dialogGiveUp
  | dialogHandler => exact still_countTimeout
  | response index code born => exact still_answer
  | uasCancel index => exact .reply _
  | incomingRequest tid => exact .reply _

/-! ## A turn -/

/-- Slot `j` comes to a send in its turn, with the slots as `tm` has them. -/
inductive SendsNow (now : UInt64) (w : World) (j : Nat) (tm : Tm) : Prop
  | uac (hRole : (w.tm.tx j).role = .UAC) (hRun : (uacRun j now).run w.tm = some (.ok .send, tm))
  | uas (hRole : (w.tm.tx j).role = .UAS) (hRun : (uasRun j now).run w.tm = some (.ok .send, tm))

/-- The messages are those of `w`, or one more of slot `j` for the transaction it holds. -/
def Sent (i b j : Nat) (now : UInt64) (w : World) (o : Option World) : Prop :=
  ∀ w', o = some w' → w'.messages i b = w.messages i b ∨
    ∃ tm, w.SendsNow now j tm ∧ j = i ∧ (tm.tx j).born = b ∧
      w'.messages i b = w.messages i b ++ [tm.stored j]

theorem Still.sent {j : Nat} {now : UInt64} {o : Option World} (h : Still i b w o) :
    Sent i b j now w o := fun w' ho => Or.inl (h w' ho)

/-- What follows a send sends nothing more. -/
theorem sent_of_still {j : Nat} {now : UInt64} {tm : Tm} (rval : Int) {o : Option World}
    (hSends : w.SendsNow now j tm) (h : Still i b (({ w with tm } : World).send j rval) o) :
    Sent i b j now w o := by
  rintro w' ho
  by_cases hOurs : j = i ∧ (tm.tx j).born = b
  · obtain ⟨rfl, hBorn⟩ := hOurs
    refine Or.inr ⟨tm, hSends, rfl, hBorn, ?_⟩
    exact (h w' ho).trans (messages_send (w := { w with tm }) hBorn)
  · exact Or.inl ((h w' ho).trans (messages_sendOther (w := { w with tm }) hOurs))

theorem Sent.after {α : Type} {x : TmM α} {k : Except TmError α → World → Option World} {j : Nat}
    {now : UInt64} (hk : ∀ r tm, x.run w.tm = some (r, tm) →
      Sent i b j now w (k r { w with tm })) : Sent i b j now w (w.after (onTm x) k) := by
  rintro w' hAfter
  rw [World.after] at hAfter
  cases hRun : (onTm x).run w.toSys with
  | none =>
    rw [hRun] at hAfter
    cases hAfter
  | some out =>
    obtain ⟨r, s⟩ := out
    obtain ⟨tm, hPart, rfl⟩ := Op.zoom_some.mp hRun
    rw [hRun] at hAfter
    exact hk r tm hPart w' hAfter

theorem sent_uacVisit {now : UInt64} {j : Nat} {outp : Option RunOut} {rval : Int}
    (hRole : (w.tm.tx j).role = .UAC) : Sent i b j now w (w.uacVisit now j outp rval) := by
  apply Sent.after
  rintro r tm hRun
  rcases r with e | turn
  · exact Still.sent (.finish _ _)
  · cases turn with
    | «over» => exact Still.sent (.same rfl)
    | idle => exact Still.sent (.same rfl)
    | timeout rest told timeout_id =>
      cases told with
      | true =>
        apply Still.sent
        rintro u hu
        obtain rfl := Option.some.inj hu
        exact messages_emit rfl
      | false => exact Still.sent (still_uacTimeoutDone (w := { w with tm }))
    | send =>
      apply sent_of_still rval (.uac hRole hRun)
      simp only
      split
      · exact .finish _ _
      · apply Still.after
        rintro r s -
        rcases r with e | bye
        · exact .finish (w := { World.send j rval { w with tm } with toSys := s }) _ _
        · exact .same rfl

theorem sent_uasVisit {now : UInt64} {j : Nat} {outp : Option RunOut} {rval : Int}
    (hRole : (w.tm.tx j).role = .UAS) : Sent i b j now w (w.uasVisit now j outp rval) := by
  apply Sent.after
  rintro r tm hRun
  rcases r with e | turn
  · exact Still.sent (.finish _ _)
  · cases turn with
    | idle => exact Still.sent (.same rfl)
    | timeout timer no_ack owner =>
      apply Still.sent
      cases timer with
      | H =>
        cases no_ack with
        | true => exact .told (w := World.push (.run now (j + 1) outp) { w with tm }) rfl
        | false => exact still_countTimeout (w := World.push (.run now (j + 1) outp) { w with tm })
      | L =>
        cases owner with
        | none => exact .same rfl
        | some d => exact still_dialogTimeout (w := World.push (.run now (j + 1) outp) { w with tm })
      | _ => exact .same rfl
    | send =>
      apply sent_of_still rval (.uas hRole hRun)
      simp only
      split
      · exact .finish _ _
      · apply Still.after
        rintro r s -
        rcases r with e | owner
        · exact .finish (w := { World.send j rval { w with tm } with toSys := s }) _ _
        · apply Still.after (w := { World.send j rval { w with tm } with toSys := s })
          rintro r s' -
          simp only
          split
          · exact .stuck
          · exact .same rfl

/-- A step hands one message to `send_to` at most, in the turn of its slot. -/
theorem step_messages {l : Label} (hStep : w.step l = some w') :
    w'.messages i b = w.messages i b ∨ ∃ now rval outp stack tm, w.stack = .run now i outp :: stack ∧
      l = .turn rval ∧ w.SendsNow now i tm ∧ (tm.tx i).born = b ∧
        w'.messages i b = w.messages i b ++ [tm.stored i] := by
  cases l with
  | call c =>
    simp only [step] at hStep
    split at hStep
    · exact Or.inl (still_perform c w' hStep)
    · cases hStep
  | ret rval =>
    simp only [step] at hStep
    split at hStep
    · cases hStep
    · rename_i f stack hStack
      exact Or.inl (still_resume (w := { w with stack }) w' hStep)
  | turn rval =>
    simp only [step] at hStep
    split at hStep
    · rename_i now j outp stack hStack
      have hSent : Sent i b j now { w with stack } (({ w with stack } : World).visit now j outp rval) := by
        simp only [visit]
        split
        · exact Still.sent (.finish _ _)
        · split
          · exact Still.sent (.same rfl)
          · cases hRole : (w.tm.tx j).role with
            | UAC => exact sent_uacVisit (w := { w with stack }) hRole
            | UAS => exact sent_uasVisit (w := { w with stack }) hRole
      cases hSent w' hStep with
      | inl hSame => exact Or.inl hSame
      | inr hMore =>
        obtain ⟨tm, hSends, rfl, hBorn, hMore⟩ := hMore
        refine Or.inr ⟨now, rval, outp, stack, tm, hStack, rfl, ?_, hBorn, hMore⟩
        cases hSends with
        | uac hRole hRun => exact .uac hRole hRun
        | uas hRole hRun => exact .uas hRole hRun
    · cases hStep

end World

end Microsippy
