import Microsippy.Retransmits

/-! # Server transactions over runs

The states a server transaction may go through, the timer that goes with each, and what stays of its
request.
-/

namespace Microsippy

set_option autoImplicit false

/-! ## States and timers -/

/-- How a server transaction may go on. -/
structure Ctl.ServerGoesOn (c c' : Ctl) : Prop where
  method : c'.method_type = c.method_type
  phase : c.phase ≤ c'.phase
  accepted : c.state = .ACCEPTED → c'.state = .ACCEPTED ∨ c'.state = .TERMINATED
  completed : c.state = .COMPLETED → c.method_type = .INVITE →
    c'.state = .COMPLETED ∨ c'.state = .CONFIRMED ∨ c'.state = .TERMINATED
  confirmed : c.state = .CONFIRMED → c'.state = .CONFIRMED ∨ c'.state = .TERMINATED
  ended : c.state = .TERMINATED → c'.state = .TERMINATED
  answer : 200 ≤ c.last_status_code → c'.last_status_code = c.last_status_code
  timer : c.phase = c'.phase → c.timer.type ≠ .NONE → c'.timer.type = c.timer.type

/-- The timer a server transaction has tells its state. -/
structure Ctl.TimerTells (c : Ctl) : Prop where
  h : c.timer.type = .H ↔ c.state = .COMPLETED ∧ c.method_type = .INVITE
  i : c.timer.type = .I ↔ c.state = .CONFIRMED
  j : c.timer.type = .J → c.state = .COMPLETED ∧ c.method_type ≠ .INVITE
  l : c.timer.type = .L ↔ c.state = .ACCEPTED
  none : c.timer.type ∉ [.H, .I, .J, .L] → c.timer.type = .NONE
  answered : c.timer.type ≠ .NONE → 200 ≤ c.last_status_code
  refused : c.timer.type = .H ∨ c.timer.type = .I → c.method_type = .INVITE ∧ 300 ≤ c.last_status_code

namespace Ctl

variable {c c' : Ctl}

theorem UasTimed.tells (h : c.UasTimed) : c.TimerTells := by
  rw [UasTimed] at h
  constructor <;> grind

theorem answered_of_phase (h : 1 ≤ c.phase) : c.state = .COMPLETED ∨ c.state = .ACCEPTED ∨
    c.state = .CONFIRMED ∨ c.state = .TERMINATED := by
  rw [phase] at h
  cases hState : c.state <;> simp [hState] at h ⊢

theorem confirmed_of_phase (h : 2 ≤ c.phase) : c.state = .CONFIRMED ∨ c.state = .TERMINATED := by
  rw [phase] at h
  cases hState : c.state <;> simp [hState] at h ⊢

theorem ended_of_phase (h : 3 ≤ c.phase) : c.state = .TERMINATED := by
  rw [phase] at h
  cases hState : c.state <;> simp [hState] at h ⊢

theorem Onward.serverGoesOn {rearm : Prop} (hTimed : c.UasTimed) (h : c.Onward rearm c')
    (hMethod : c'.method_type = c.method_type)
    (hAnswer : 200 ≤ c.last_status_code → c'.last_status_code = c.last_status_code) :
    c.ServerGoesOn c' := by
  have hWas := hTimed
  have hIs := h.timed
  rw [UasTimed] at hWas hIs
  constructor
  · exact hMethod
  · exact h.phase
  · intro hState
    have hPhase : c.phase = 1 := by rw [Ctl.phase, hState]
    simp only [hState] at hWas
    obtain ⟨hTimer, hFinal, hSuccess⟩ := hWas
    obtain hState' | hState' | hState' | hState' := answered_of_phase (hPhase ▸ h.phase)
    · -- Timer L would have to be there still
      have hPhase' : c'.phase = 1 := by rw [Ctl.phase, hState']
      have hSame := h.type (hPhase.trans hPhase'.symm) (by rw [hTimer]; decide)
      simp only [hState'] at hIs
      rw [hSame, hTimer] at hIs
      rcases hIs with ⟨hBad, -⟩ | ⟨hBad | hBad, -⟩ <;> cases hBad
    · exact Or.inl hState'
    · -- a 2xx would have to be another answer now
      simp only [hState'] at hIs
      have hRefused := hIs.2.2
      rw [hAnswer hFinal] at hRefused
      exact absurd hSuccess (UInt16.not_lt.mpr hRefused)
    · exact Or.inr hState'
  · intro hState hInvite
    have hPhase : c.phase = 1 := by rw [Ctl.phase, hState]
    simp only [hState] at hWas
    have hRefused : 300 ≤ c.last_status_code := by
      obtain ⟨-, -, hRefused⟩ | ⟨-, hOther, -⟩ := hWas
      · exact hRefused
      · exact absurd hInvite hOther
    have hSame := hAnswer (UInt16.le_trans (by decide) hRefused)
    obtain hState' | hState' | hState' | hState' := answered_of_phase (hPhase ▸ h.phase)
    · exact Or.inl hState'
    · simp only [hState'] at hIs
      rw [hSame] at hIs
      exact absurd hIs.2.2 (UInt16.not_lt.mpr hRefused)
    · exact Or.inr (Or.inl hState')
    · exact Or.inr (Or.inr hState')
  · intro hState
    apply confirmed_of_phase
    have hPhase : c.phase = 2 := by rw [Ctl.phase, hState]
    exact hPhase ▸ h.phase
  · intro hState
    apply ended_of_phase
    exact phase_ended hState ▸ h.phase
  · exact hAnswer
  · exact h.type

end Ctl

namespace World

variable {w w' : World} {i : Nat}

/-- An INVITE refused, and the refusal sent twice. -/
theorem refusal_run : ∃ w w' : World, w.Reachable ∧ Transition.Run step (fun _ _ => True) w w' ∧
    (w.tm.tx 0).role = .UAS ∧ (w.tm.tx 0).state = .COMPLETED ∧ (w'.tm.tx 0).born = (w.tm.tx 0).born ∧
      (w'.tm.tx 0).state = .COMPLETED := by
  have hTest : (Sample.after 1 inviteRefused).any (fun w => (w.tm.tx 0).role == .UAS &&
      (w.tm.tx 0).state == .COMPLETED && (Transition.exec step w refusalSent).any fun w' =>
        (w'.tm.tx 0).born == (w.tm.tx 0).born && (w'.tm.tx 0).state == .COMPLETED) = true := by
    decide +kernel
  obtain ⟨w, hReachable, hTest⟩ := Sample.exists_of_after hTest
  simp only [Bool.and_eq_true, Option.any_eq_true, beq_iff_eq] at hTest
  obtain ⟨⟨hRole, hState⟩, w', hExec, hBorn, hState'⟩ := hTest
  exact ⟨w, w', hReachable, Transition.exec_run (fun _ _ => trivial) hExec, hRole, hState, hBorn, hState'⟩

/-- What a server transaction knows of its request. -/
structure KeepsRequest (i : Nat) (w w' : World) : Prop where
  method_type : (w'.tm.tx i).cache.method_type = (w.tm.tx i).cache.method_type
  cache : (w.tm.tx i).cache.SameButAck (w'.tm.tx i).cache
  peer : (w'.tm.tx i).peer = (w.tm.tx i).peer
  held : ∀ s, (w.tm.tx i).scratch.Holds s → w'.tm.mem.read s = w.tm.mem.read s
  call_id : w'.tm.mem.read (w.tm.tx i).id.call_id = w.tm.mem.read (w.tm.tx i).id.call_id
  branch : w'.tm.mem.read (w.tm.tx i).id.branch = w.tm.mem.read (w.tm.tx i).id.branch
  from_tag : w'.tm.mem.read (w.tm.tx i).id.from_tag = w.tm.mem.read (w.tm.tx i).id.from_tag
  to_tag : w.tm.LaysTags → w'.tm.mem.read (w.tm.tx i).cache.to_tag = w.tm.mem.read (w.tm.tx i).cache.to_tag

end World

end Microsippy
