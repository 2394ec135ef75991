import Microsippy.WorldMoves

/-! # Completed INVITEs

A client INVITE with a final response over whole runs, and what a later provisional response does to it.
-/

namespace Microsippy

set_option autoImplicit false

/-- A provisional response to an INVITE whose final response was reported. -/
theorem handleIncomingResponse_late {now : UInt64} {msg : Msg} {code : StatusCode} {tid : Tid} {tm : Tm}
    {i : Nat} (hFound : tm.findUac tid = some i) (hCode : code.1 / 100 = 1)
    (hInvite : (tm.tx i).isInvite = true) (hReported : (tm.tx i).final_reported = true) :
    (handleIncomingResponse now msg code tid).run tm = some (.ok (i, false), tm) := by
  have hMatch : (List.range tm.max_transactions).find? (fun i =>
      (tm.tx i).active && (tm.tx i).role == .UAC && tidMatchesTx tm.mem tid (tm.tx i)) = some i := hFound
  have hSilent : (uacResponded i now msg code).run tm = some (.ok false, tm) := by
    rw [uacResponded, Op.run_bind, Op.run_get, Op.andThen_ok]
    simp only [hInvite, hCode, hReported, and_self, if_true, Op.run_pure]
  rw [handleIncomingResponse, Op.run_bind, Op.run_get, Op.andThen_ok, hMatch, Op.run_bind,
    Op.run_orElse_some, Op.andThen_ok, Op.run_bind, hSilent]
  rfl

namespace World

variable {w w' : World}

/-- It is answered, and that is all. -/
theorem step_late {now : UInt64} {msg : Msg} {code : StatusCode} {tid : Tid} {i : Nat}
    (hLine : msg.sline = .res code) (hTid : msg.getTid w.tm.mem = some tid)
    (hFound : w.tm.findUac tid = some i) (hCode : code.1 / 100 = 1)
    (hInvite : (w.tm.tx i).isInvite = true) (hReported : (w.tm.tx i).final_reported = true)
    (hStep : w.step (.call (.handleIncoming now (some msg))) = some w') :
    w' = w.emit (.reply (.ok (.incoming .RESPONSE_1XX (some i)))) := by
  have hLow : code.1 < 200 := by omega
  have hHeard : (onTm (handleIncomingResponse now msg code tid)).run w.toSys =
      some (.ok (i, false), w.toSys) :=
    Op.zoom_some.mpr ⟨w.tm, handleIncomingResponse_late hFound hCode hInvite hReported, rfl⟩
  have hDone : (onTm (uacResponseDone i code)).run w.toSys = some (.ok (), w.toSys) := by
    refine Op.zoom_some.mpr ⟨w.tm, ?_, rfl⟩
    rw [uacResponseDone, Op.run_bind, Op.run_get, Op.andThen_ok,
      if_neg fun h => absurd h.1 (Nat.not_le_of_lt hLow)]
    rfl
  rw [step] at hStep
  split at hStep
  · simp only [perform, handleIncoming, hTid, hLine, incomingResponse, World.after, hHeard, responseDone,
      hDone, Bool.false_eq_true, if_false, reply, responseEvent, hLow, if_true] at hStep
    exact (Option.some.inj hStep).symm
  · cases hStep

end World

/-! ## A late provisional response -/

/-- An INVITE of a manager with `n` slots, sent and refused. -/
def refusedInvite (n : Nat) : List Label :=
  [.call (.newUacTr (Sample.request .INVITE)), .call (.run 0 true)] ++
    List.replicate (n + 1) (.turn 0) ++
    [.call (.handleIncoming 1 (some (Sample.response ⟨486, by decide⟩ .INVITE)))]

def ringingMsg : Msg := Sample.response ⟨180, by decide⟩ .INVITE

/-- A provisional response that comes after the refusal. -/
def ringing : Label := .call (.handleIncoming 2 (some ringingMsg))

/-- A run that sends the ACK. -/
def ackSent : List Label := [.call (.run 1 true), .turn 0, .turn 0, .turn 0]

end Microsippy
