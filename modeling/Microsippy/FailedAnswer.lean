import Microsippy.Reentry
import Microsippy.RunReport

/-! # A failed response

What `usipy_sip_tm_send_uas_response` leaves of a server transaction when it does not succeed.
-/

namespace Microsippy

set_option autoImplicit false

/-- The bytes of the stored response, and what says when it is sent and which one it was. -/
def Txi.answer (m : Mem) (tp : Txi) : Bytes × UInt64 × TxState × UInt16 × Timer × UInt32 :=
  (m.read tp.raw, tp.next_send_at_ms, tp.state, tp.last_status_code, tp.timer, tp.cache.uas.ack_hash)

/-- The slot gets past the checks: the stored response is given up for the new one. -/
structure Tm.PastAnswerChecks (tm : Tm) (index : Nat) : Prop where
  active : (tm.tx index).active = true
  live : (tm.tx index).state ≠ .TERMINATED
  «open» : (tm.tx index).last_status_code < 200

theorem uasMayAnswer_some {tm tm' : Tm} {index : Nat} {r : Except TmError Unit}
    (hRun : (uasMayAnswer index).run tm = some (r, tm')) :
    tm' = tm ∧ (r = .ok () → tm.PastAnswerChecks index) := by
  simp only [uasMayAnswer, Op.run_bind, Op.run_get, Op.andThen_ok, Op.run_assert, Op.run_require] at hRun
  split at hRun
  · rw [Op.andThen_ok] at hRun
    split at hRun
    · rename_i hActive
      rw [Op.andThen_ok] at hRun
      split at hRun
      · rw [Op.andThen_ok] at hRun
        split at hRun
        · rename_i hLive
          rw [Op.andThen_ok] at hRun
          split at hRun
          · rename_i hOpen
            rw [Op.andThen_ok] at hRun
            split at hRun
            · obtain ⟨-, rfl⟩ := Prod.mk.inj (Option.some.inj hRun)
              exact ⟨rfl, fun _ => ⟨hActive, hLive, hOpen⟩⟩
            · cases hRun
          · obtain ⟨rfl, rfl⟩ := Prod.mk.inj (Option.some.inj hRun)
            exact ⟨rfl, fun h => by cases h⟩
        · obtain ⟨rfl, rfl⟩ := Prod.mk.inj (Option.some.inj hRun)
          exact ⟨rfl, fun h => by cases h⟩
      · cases hRun
    · obtain ⟨rfl, rfl⟩ := Prod.mk.inj (Option.some.inj hRun)
      exact ⟨rfl, fun h => by cases h⟩
  · cases hRun

/-- A response that is refused or cannot be built leaves the transaction as it was, unless one is stored
that was given up for it. -/
theorem sendUasResponse_answer {tm tm' : Tm} {index : Nat} {rpp : UasResponseParams} {e : TmError}
    (hRun : (sendUasResponse index rpp).run tm = some (.error e, tm'))
    (hHeld : tm.PastAnswerChecks index → (tm.tx index).raw.l = 0) :
    (tm'.tx index).answer tm'.mem = (tm.tx index).answer tm.mem := by
  rw [sendUasResponse_eq, Op.run_bind] at hRun
  cases hMay : (uasMayAnswer index).run tm with
  | none =>
    rw [hMay] at hRun
    cases hRun
  | some out =>
    obtain ⟨r, t⟩ := out
    rw [hMay] at hRun
    cases r with
    | error e₁ =>
      obtain ⟨-, rfl⟩ := Prod.mk.inj (Option.some.inj hRun)
      rw [(uasMayAnswer_some hMay).1]
    | ok u =>
      obtain ⟨rfl, hPast⟩ := uasMayAnswer_some hMay
      have hNone := hHeld (hPast rfl)
      rw [Op.andThen_ok] at hRun
      obtain ⟨tp, hPart, rfl⟩ := onSlot_some hRun
      obtain ⟨scratch, ⟨-, -, rfl⟩ | ⟨hOk, -⟩⟩ := uasAnswerSlot_some hPart
      · rw [Tm.set_same, Txi.answer, Txi.answer, Mem.read_of_empty hNone, Mem.read_of_empty hNone]
      · cases hOk

/-- A 200 with more of a body than a slot has storage. -/
def longOk : UasResponseParams :=
  { status := resOk
    content_type := some (Sample.str "text/plain")
    body := some (Str.lit (List.replicate 4096 (ch 'x'))) }

/-- An OPTIONS request received in slot 0, and a response to it. -/
def optionsProgress : List Label :=
  [.call (.newUasTr (receivedFrom (optionsTo "<sip:b@h>"))),
    .call (.sendUasResponse 0 { status := ⟨⟨183, by decide⟩, Sample.str "Session Progress"⟩ })]

/-- A first response that does not fit. -/
theorem long_first_answer_kept : ∃ (w : World) (tm' : Tm) (e : TmError), w.Reachable ∧
    (sendUasResponse 0 longOk).run w.tm = some (.error e, tm') ∧
      (tm'.tx 0).answer tm'.mem = (w.tm.tx 0).answer w.tm.mem := by
  have hTest : (Sample.after 1 (optionsProgress.take 1)).any (fun w =>
      ((sendUasResponse 0 longOk).run w.tm).any (fun out => out.1.toOption.isNone) &&
        (w.tm.tx 0).raw.l == 0) = true := by
    decide +kernel
  obtain ⟨w, hReachable, hTest⟩ := Sample.exists_of_after hTest
  simp only [Bool.and_eq_true, Option.any_eq_true, beq_iff_eq] at hTest
  obtain ⟨⟨⟨r, tm'⟩, hRun, hFailed⟩, hNone⟩ := hTest
  cases r with
  | ok u => cases hFailed
  | error e => exact ⟨w, tm', e, hReachable, hRun, sendUasResponse_answer hRun fun _ => hNone⟩

/-- A final response that does not fit writes over the provisional one that is stored. -/
theorem long_answer_overwrites : ∃ (w : World) (tm' : Tm) (e : TmError), w.Reachable ∧
    (sendUasResponse 0 longOk).run w.tm = some (.error e, tm') ∧
      tm'.mem.read (tm'.tx 0).raw ≠ w.tm.mem.read (w.tm.tx 0).raw := by
  have hTest : (Sample.after 1 optionsProgress).any (fun w =>
      ((sendUasResponse 0 longOk).run w.tm).any (fun out => out.1.toOption.isNone &&
        out.2.mem.read (out.2.tx 0).raw != w.tm.mem.read (w.tm.tx 0).raw)) = true := by
    decide +kernel
  obtain ⟨w, hReachable, hTest⟩ := Sample.exists_of_after hTest
  simp only [Bool.and_eq_true, Option.any_eq_true, bne_iff_ne] at hTest
  obtain ⟨⟨r, tm'⟩, hRun, hFailed, hOther⟩ := hTest
  cases r with
  | ok u => cases hFailed
  | error e => exact ⟨w, tm', e, hReachable, hRun, hOther⟩

end Microsippy
