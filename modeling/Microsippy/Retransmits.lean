import Mathlib.Data.List.Find
import Microsippy.NextRun
import Microsippy.FinalAnswer

/-! # Requests that come again

When a request whose server transaction is there is taken for a retransmission.
-/

namespace Microsippy

set_option autoImplicit false

/-! ## Messages received -/

/-- Whether a string lies outside the manager's storage. -/
def Str.isLit (s : Str) : Bool :=
  match s.src with
  | .lit _ => true
  | .scratch _ => false

theorem Str.read_of_isLit {s : Str} (h : s.isLit = true) (m m' : Mem) : m.read s = m'.read s := by
  cases hSrc : s.src with
  | lit b => exact Mem.read_of_lit hSrc m m'
  | scratch k =>
    rw [isLit, hSrc] at h
    cases h

def TvPair.strs (pp : TvPair) : List Str := [pp.token, pp.value]

/-- The strings of a parsed value that a transaction id is made from. -/
def ParsedHdr.strs : ParsedHdr → List Str
  | .via v => v.params.flatMap TvPair.strs
  | .nameaddr n => n.params.flatMap TvPair.strs
  | .cseq c => [c.onwire_method]
  | .generic s => [s]

namespace Msg

variable {msg : Msg} {tid : Tid}

/-- A message that is not part of the manager's storage. -/
def Outside (msg : Msg) : Prop :=
  ∀ h ∈ msg.hdrs, ∀ p ∈ h.parsed, ∀ s ∈ p.strs, s.isLit = true

instance (msg : Msg) : Decidable msg.Outside :=
  inferInstanceAs (Decidable (∀ h ∈ msg.hdrs, ∀ p ∈ h.parsed, ∀ s ∈ p.strs, s.isLit = true))

/-- A transaction id that a message has whatever the manager's storage is. -/
structure HasTid (msg : Msg) (tid : Tid) : Prop where
  has_tid : ∀ m, msg.getTid m = some tid
  call_id : ∀ m m' : Mem, m.read tid.call_id = m'.read tid.call_id
  branch : ∀ m m' : Mem, m.read tid.vbranch = m'.read tid.vbranch
  from_tag : ∀ m m' : Mem, m.read tid.from_tag = m'.read tid.from_tag

theorem Outside.top {t : Hf} {p : ParsedHdr} (hOutside : msg.Outside)
    (hTop : (msg.top t).bind (·.parsed) = some p) : ∀ s ∈ p.strs, s.isLit = true := by
  obtain ⟨h, hFind, hParsed⟩ := Option.bind_eq_some_iff.mp hTop
  exact hOutside h (List.mem_of_find?_eq_some hFind) p hParsed

theorem requireParam_isLit {m : Mem} {params : List TvPair} {name : Bytes} {s : Str}
    (hLit : ∀ x ∈ params.flatMap TvPair.strs, x.isLit = true)
    (h : requireParam m params name = some s) :
    s.isLit = true ∧ ∀ m', requireParam m' params name = some s := by
  have hTokens : ∀ pp ∈ params, pp.token.isLit = true ∧ pp.value.isLit = true := fun pp hpp =>
    ⟨hLit _ (List.mem_flatMap.mpr ⟨pp, hpp, by simp [TvPair.strs]⟩),
      hLit _ (List.mem_flatMap.mpr ⟨pp, hpp, by simp [TvPair.strs]⟩)⟩
  have hSame : ∀ m', requireParam m' params name = requireParam m params name := by
    intro m'
    rw [requireParam, requireParam]
    congr 1
    apply List.find?_congr
    rintro pp hpp
    rw [Str.read_of_isLit (hTokens pp hpp).1 m' m]
  constructor
  · simp only [requireParam, Option.bind_eq_some_iff] at h
    obtain ⟨pp, hFind, hValue⟩ := h
    split at hValue
    · cases hValue
    · obtain rfl := Option.some.inj hValue
      exact (hTokens pp (List.mem_of_find?_eq_some hFind)).2
  · intro m'
    rw [hSame]
    exact h

theorem Outside.hasTid {m : Mem} (hOutside : msg.Outside) (hTid : msg.getTid m = some tid) :
    msg.HasTid tid := by
  simp only [getTid] at hTid
  split at hTid
  · rename_i hParsed
    split at hTid
    · rename_i cseq call_id via fromp hCseq hCallId hVia hFrom
      simp only [Option.bind_eq_bind, Option.bind_eq_some_iff] at hTid
      obtain ⟨vbranch, hBranch, from_tag, hTag, hTid⟩ := hTid
      obtain rfl := Option.some.inj hTid
      obtain ⟨hBranchLit, hBranch⟩ := requireParam_isLit (hOutside.top hVia) hBranch
      obtain ⟨hTagLit, hTag⟩ := requireParam_isLit (hOutside.top hFrom) hTag
      have hCallLit := hOutside.top hCallId call_id (List.mem_singleton_self _)
      have hMethodLit := hOutside.top hCseq cseq.onwire_method (List.mem_singleton_self _)
      constructor
      · intro m'
        have hHash : tidHash m' call_id from_tag vbranch cseq = tidHash m call_id from_tag vbranch cseq := by
          simp only [tidHash, Str.read_of_isLit hCallLit m' m, Str.read_of_isLit hTagLit m' m,
            Str.read_of_isLit hBranchLit m' m, Str.read_of_isLit hMethodLit m' m]
        simp only [getTid, if_pos hParsed, hCseq, hCallId, hVia, hFrom, hBranch, hTag, hHash,
          Option.bind_eq_bind, Option.bind_some]
        rfl
      · exact Str.read_of_isLit hCallLit
      · exact Str.read_of_isLit hBranchLit
      · exact Str.read_of_isLit hTagLit
    · cases hTid
  · cases hTid

end Msg

/-- A slot has the identity of a transaction id. -/
structure Txi.IdOf (m : Mem) (tid : Tid) (tp : Txi) : Prop where
  hash : tid.hash = tp.id.hash
  call_id : m.read tid.call_id = m.read tp.id.call_id
  from_tag : m.read tid.from_tag = m.read tp.id.from_tag
  branch : m.read tid.vbranch = m.read tp.id.branch
  cseq : tid.cseq.val = tp.id.cseq

namespace Tm

variable {tm tm' : Tm} {i : Nat} {method : Method} {msg : Msg} {tid : Tid}

/-- Slot `i` has the server transaction of a request. -/
structure Serves (i : Nat) (method : Method) (tid : Tid) (tm : Tm) : Prop where
  role : (tm.tx i).role = .UAS
  method : (tm.tx i).method_type = method
  id : (tm.tx i).IdOf tm.mem tid

/-- A request is matched to what slot `j` has. -/
structure Matches (tid : Tid) (tm : Tm) (j : Nat) : Prop where
  active : (tm.tx j).active = true
  role : (tm.tx j).role = .UAS
  id : (tm.tx j).IdOf tm.mem tid
  method : tid.cseq.method = (tm.tx j).method_type

theorem findUas_first (tm : Tm) (tid : Tid) :
    FirstOf tm.max_transactions (tm.Matches tid) (findUasTransaction tm tid) := by
  apply FirstOf.of_find?
  intro j
  simp only [tidMatchesTx, Bool.and_eq_true, beq_iff_eq, Str.eq_iff]
  constructor
  · rintro ⟨⟨hActive, hRole⟩, ⟨⟨⟨⟨hHash, hCallId⟩, hTag⟩, hBranch⟩, hVal⟩, hMethod⟩
    exact ⟨hActive, hRole, ⟨hHash, hCallId, hTag, hBranch, hVal⟩, hMethod⟩
  · rintro ⟨hActive, hRole, ⟨hHash, hCallId, hTag, hBranch, hVal⟩, hMethod⟩
    exact ⟨⟨hActive, hRole⟩, ⟨⟨⟨⟨hHash, hCallId⟩, hTag⟩, hBranch⟩, hVal⟩, hMethod⟩

theorem findUas_iff : findUasTransaction tm tid = some i ↔
    (i < tm.max_transactions ∧ tm.Matches tid i) ∧ ∀ j < i, ¬ tm.Matches tid j := by
  have hFirst := tm.findUas_first tid
  constructor
  · intro hFound
    rwa [hFound] at hFirst
  · intro hIs
    have hHere : FirstOf tm.max_transactions (tm.Matches tid) (some i) := hIs
    exact hFirst.unique hHere

/-! ## From the making on -/

theorem newUasTr_serves {tpp : NewUasTrParams} (hHas : tpp.request.HasTid tid) (hOk : tm.UasOk)
    (hWired : tm.Wired) (hRun : (newUasTr tpp).run tm = some (.ok i, tm')) :
    ∃ ruri, tpp.request.sline = .req (tm'.tx i).method_type ruri ∧
      tm'.Serves i (tm'.tx i).method_type tid := by
  have hMoves : Moves {} tm tm' := moves_newUasTr tpp _ _ _ hOk hRun
  have hWired' := hMoves.wired hWired
  obtain ⟨tm₁, tid', tp, hMakes⟩ := newUasTr_makes hOk hRun
  obtain rfl : tid' = tid := Option.some.inj (hMakes.request_tid.symm.trans (hHas.has_tid _))
  have hNamed := hMakes.filled.named
  obtain ⟨hp₁, -, hCallId⟩ := hMakes.copied.call_id
  obtain ⟨hp₂, -, hBranch⟩ := hMakes.copied.branch
  obtain ⟨hp₃, -, hTag⟩ := hMakes.copied.from_tag
  obtain ⟨ruri, hLine⟩ := hMakes.line
  refine ⟨ruri, hMakes.activated.method ▸ hLine, hMakes.activated.role, rfl, ?_⟩
  constructor
  · rw [hMakes.activated.id]
  · rw [hMakes.activated.id, hMakes.read hWired' (Or.inr hNamed.call_id), hCallId]
    exact hHas.call_id _ _
  · rw [hMakes.activated.id, hMakes.read hWired' (Or.inr hNamed.from_tag), hTag]
    exact hHas.from_tag _ _
  · rw [hMakes.activated.id, hMakes.read hWired' (Or.inr hNamed.branch), hBranch]
    exact hHas.branch _ _
  · rw [hMakes.activated.id]

/-- A server transaction that keeps its identity still serves its request. -/
theorem Serves.lasts {allow : Allow} (h : tm.Serves i method tid) (hHas : msg.HasTid tid)
    (hWired : tm.Wired) (hWired' : tm'.Wired) (hGrounded : (tm.tx i).Grounded)
    (hLasts : (tm.tx i).Lasts allow (tm'.tx i)) (hId : (tm'.tx i).id = (tm.tx i).id) :
    tm'.Serves i method tid := by
  have hRead : ∀ s, (tm.tx i).scratch.Holds s → tm'.mem.read s = tm.mem.read s := by
    rintro s hs
    have hSame := hLasts.heap.read hGrounded.top hs tm.mem tm'.mem
    rwa [hWired.mem, hWired'.mem] at hSame
  constructor
  · exact hLasts.ctl.life.role.trans h.role
  · exact hLasts.ctl.method.trans h.method
  · constructor
    · rw [hId]
      exact h.id.hash
    · rw [hId, hRead _ hGrounded.call_id, ← h.id.call_id]
      exact hHas.call_id _ _
    · rw [hId, hRead _ hGrounded.from_tag, ← h.id.from_tag]
      exact hHas.from_tag _ _
    · rw [hId, hRead _ hGrounded.branch, ← h.id.branch]
      exact hHas.branch _ _
    · rw [hId]
      exact h.id.cseq

end Tm

namespace World

variable {w w' : World} {i : Nat} {l : Label} {method : Method} {msg : Msg} {tid : Tid} {now : UInt64}

theorem step_named (hReachable : w.Reachable) (hStep : w.step l = some w')
    (hRole : (w.tm.tx i).role = .UAS) (hBorn : (w'.tm.tx i).born = (w.tm.tx i).born) :
    (w'.tm.tx i).state = .TERMINATED ∨ (w'.tm.tx i).id = (w.tm.tx i).id ∨
      (w'.tm.tx i).id.from_tag.l = 0 := by
  by_cases hReleases : w.ReleasesServer l i
  · obtain ⟨rval, f, stack, hStack, rfl, hSlot, hReleases, -⟩ := hReleases
    cases ret_some hStack hSlot hStep with
    | inl hReleased =>
      obtain ⟨-, r, tp, hRun, hIs⟩ := hReleased
      obtain ⟨scratch, rfl⟩ := releaseOutbound_some hRun
      rw [hIs, Tm.set_same]
      exact Or.inr (Or.inr rfl)
    | inr hSame => exact absurd hReleases hSame.1
  · have hLasts := step_lasts hReachable hStep hReleases hRole hBorn
    exact (hLasts.id.resolve_left fun h => h).imp_right Or.inl

/-- A server transaction over any run, with the identity it had, or ended or released. -/
theorem run_named (hReachable : w.Reachable) (hRun : Transition.Run step (fun _ _ => True) w w')
    (hRole : (w.tm.tx i).role = .UAS) (hBorn : (w'.tm.tx i).born = (w.tm.tx i).born) :
    (w.tm.tx i).Lasts .any (w'.tm.tx i) ∧
      ((w'.tm.tx i).state = .TERMINATED ∨ (w'.tm.tx i).id = (w.tm.tx i).id ∨
        (w'.tm.tx i).id.from_tag.l = 0) := by
  induction hRun with
  | refl => exact ⟨Std.Refl.refl _, Or.inr (Or.inl rfl)⟩
  | @snoc t u l hFirst _ hStep ih =>
    have hSame := run_sameSlot hReachable hFirst hStep hRole hBorn
    obtain ⟨hWas, hNamed⟩ := ih hSame
    have hRoleT := hWas.ctl.life.role.trans hRole
    have hReachableT := hReachable.run hFirst
    have hLasts : (t.tm.tx i).Lasts .any (u.tm.tx i) :=
      (step_lastsAny hReachableT hStep hRoleT (hBorn.trans hSame.symm)).mono (fun _ => trivial)
        trivial trivial
    refine ⟨IsTrans.trans _ _ _ hWas hLasts, ?_⟩
    cases step_named hReachableT hStep hRoleT (hBorn.trans hSame.symm) with
    | inl hEnded => exact Or.inl hEnded
    | inr hStill =>
      cases hStill with
      | inr hReleased => exact Or.inr (Or.inr hReleased)
      | inl hId =>
        cases hNamed with
        | inl hEnded => exact Or.inl (hLasts.ctl.ended hEnded)
        | inr hNamed => exact Or.inr (hId ▸ hNamed)

/-! ## The request again -/

/-- The unanswered INVITE a request that is no ACK is taken to cancel. -/
def cancels (tm : Tm) (method : Method) (tid : Tid) : Option Nat :=
  if method = .CANCEL then findUasCancelTransaction tm tid else none

theorem handleIncomingRequest_cancel {tm : Tm} {j : Nat} (hAck : method ≠ .ACK)
    (hCancels : cancels tm method tid = some j) : (handleIncomingRequest now msg method tid).run tm =
      some (.ok (.cancel j (tm.tx j).uas_callbacks.cancel), tm) := by
  rw [cancels] at hCancels
  simp only [handleIncomingRequest, Op.run_bind, Op.run_get, Op.andThen_ok, if_neg hAck, hCancels]
  rfl

/-- What a retransmission leaves of the manager. -/
def again (now : UInt64) (i : Nat) (tm : Tm) : Tm :=
  tm.set i { tm.tx i with toCtl := (tm.tx i).requestRetransmitted now ((tm.tx i).raw.l ≠ 0) }

theorem handleIncomingRequest_retransmit {tm : Tm} {j : Nat} (hAck : method ≠ .ACK)
    (hCancels : cancels tm method tid = none) (hFound : findUasTransaction tm tid = some j) :
    (handleIncomingRequest now msg method tid).run tm =
      some (.ok (.retransmit j), again now j tm) := by
  rw [cancels] at hCancels
  simp only [handleIncomingRequest, Op.run_bind, Op.run_get, Op.andThen_ok, if_neg hAck, hCancels,
    hFound]
  rfl

theorem handleIncomingRequest_new {tm : Tm} (hAck : method ≠ .ACK)
    (hCancels : cancels tm method tid = none) (hFound : findUasTransaction tm tid = none) :
    (handleIncomingRequest now msg method tid).run tm =
      some (if tm.incoming_request then .ok .new else .error .UNSUPPORTED, tm) := by
  rw [cancels] at hCancels
  simp only [handleIncomingRequest, Op.run_bind, Op.run_get, Op.andThen_ok, if_neg hAck, hCancels,
    hFound, Op.run_require]
  cases tm.incoming_request <;> rfl

/-- What a request that is absorbed by slot `i` leaves. -/
structure Absorbed (now : UInt64) (i : Nat) (w w' : World) : Prop where
  log : w'.log = w.log ++ [.reply (.ok (.incoming .REQUEST_RETRANSMIT (some i)))]
  stack : w'.stack = w.stack
  other : ∀ k, k ≠ i → w'.tm.tx k = w.tm.tx k
  raw : (w'.tm.tx i).raw = (w.tm.tx i).raw
  due : (w.tm.tx i).raw.l ≠ 0 → (w.tm.tx i).state ≠ .CONFIRMED → (w.tm.tx i).state ≠ .ACCEPTED →
    (w'.tm.tx i).next_send_at_ms = now

def Absorbs (now : UInt64) (msg : Msg) (i : Nat) (w : World) : Prop :=
  ∃ w', w.handleIncoming now (some msg) = some w' ∧ w.Absorbed now i w'

theorem absorbs_iff {ruri : Str} (hTid : msg.getTid w.tm.mem = some tid)
    (hLine : msg.sline = .req method ruri) (hAck : method ≠ .ACK) :
    w.Absorbs now msg i ↔
      cancels w.tm method tid = none ∧ findUasTransaction w.tm tid = some i := by
  have hTaken : w.handleIncoming now (some msg) = w.incomingRequest now msg method tid := by
    simp only [handleIncoming, hTid, hLine]
  constructor
  · rintro ⟨w', hHandled, hAbsorbed⟩
    have hLog := hAbsorbed.log
    rw [hTaken, incomingRequest] at hHandled
    obtain ⟨r, tm, hRun, hDone⟩ := after_onTm hHandled
    cases hCancels : cancels w.tm method tid with
    | some j =>
      rw [handleIncomingRequest_cancel hAck hCancels] at hRun
      obtain ⟨rfl, rfl⟩ := Prod.mk.inj (Option.some.inj hRun)
      simp only at hDone
      split at hDone
      · obtain rfl := Option.some.inj hDone
        cases List.append_cancel_left hLog
      · obtain rfl := Option.some.inj hDone
        cases List.append_cancel_left hLog
    | none =>
      cases hFound : findUasTransaction w.tm tid with
      | some j =>
        rw [handleIncomingRequest_retransmit hAck hCancels hFound] at hRun
        obtain ⟨rfl, rfl⟩ := Prod.mk.inj (Option.some.inj hRun)
        obtain rfl := Option.some.inj hDone
        cases List.append_cancel_left hLog
        exact ⟨rfl, rfl⟩
      | none =>
        rw [handleIncomingRequest_new hAck hCancels hFound] at hRun
        obtain ⟨rfl, rfl⟩ := Prod.mk.inj (Option.some.inj hRun)
        cases hKnown : w.tm.incoming_request with
        | true =>
          rw [hKnown] at hDone
          obtain rfl := Option.some.inj hDone
          cases List.append_cancel_left hLog
        | false =>
          rw [hKnown] at hDone
          obtain rfl := Option.some.inj hDone
          cases List.append_cancel_left hLog
  · rintro ⟨hCancels, hFound⟩
    have hRun : (handleIncomingRequest now msg method tid).run w.tm =
        some (.ok (.retransmit i), again now i w.tm) :=
      handleIncomingRequest_retransmit hAck hCancels hFound
    have hSys : (onTm (handleIncomingRequest now msg method tid)).run w.toSys =
        some (.ok (.retransmit i), { w.toSys with tm := again now i w.tm }) :=
      Op.zoom_some.mpr ⟨_, hRun, rfl⟩
    have hHandled : w.handleIncoming now (some msg) =
        some (World.emit (.reply (.ok (.incoming .REQUEST_RETRANSMIT (some i))))
          { w with toSys := { w.toSys with tm := again now i w.tm } }) := by
      rw [hTaken, incomingRequest, World.after, hSys]
      rfl
    refine ⟨_, hHandled, ?_⟩
    constructor
    · rfl
    · rfl
    · rintro k hk
      exact Tm.set_other _ _ hk
    · change ((again now i w.tm).tx i).raw = _
      rw [again, Tm.set_same]
    · rintro hStored hConfirmed hAccepted
      change ((again now i w.tm).tx i).next_send_at_ms = now
      rw [again, Tm.set_same]
      exact if_pos ⟨hConfirmed, hAccepted, decide_eq_true hStored⟩

/-! ## When it is absorbed -/

/-- A request is taken for a retransmission of that of slot `i`: its methods agree, no INVITE that
waits for its answer takes it for its CANCEL, the slot has not been released, and no slot before it has
the same transaction. -/
structure TakenAgain (method : Method) (tid : Tid) (i : Nat) (tm : Tm) : Prop where
  agrees : tid.cseq.method = method
  uncancelled : method = .CANCEL → ∀ j < tm.max_transactions, (tm.tx j).active = true →
    uasCancelMatchesTx tm.mem tid (tm.tx j) = false
  unreleased : (tm.tx i).id.from_tag.l ≠ 0
  first : ∀ j < i, ¬ tm.Matches tid j

theorem cancels_none {tm : Tm} : cancels tm method tid = none ↔
    (method = .CANCEL → ∀ j < tm.max_transactions, (tm.tx j).active = true →
      uasCancelMatchesTx tm.mem tid (tm.tx j) = false) := by
  rw [cancels]
  cases Decidable.em (method = .CANCEL) with
  | inl hCancel =>
    rw [if_pos hCancel, imp_iff_right hCancel, findUasCancelTransaction, List.find?_eq_none]
    constructor
    · rintro hNone j hj hActive
      have hNot := hNone j (List.mem_range.mpr hj)
      rw [hActive, Bool.true_and, Bool.not_eq_true] at hNot
      exact hNot
    · rintro hNone j hj hMatches
      rw [Bool.and_eq_true] at hMatches
      rw [hNone j (List.mem_range.mp hj) hMatches.1] at hMatches
      cases hMatches.2
  | inr hOther =>
    rw [if_neg hOther]
    exact ⟨fun _ hCancel => absurd hCancel hOther, fun _ => rfl⟩

theorem absorbs_iff_taken {ruri : Str} (hReachable : w.Reachable) (hHas : msg.HasTid tid)
    (hLine : msg.sline = .req method ruri) (hAck : method ≠ .ACK)
    (hServes : (w.tm.tx i).id.from_tag.l = 0 ∨ w.tm.Serves i method tid) :
    w.Absorbs now msg i ↔ TakenAgain method tid i w.tm := by
  rw [absorbs_iff (hHas.has_tid _) hLine hAck, cancels_none, Tm.findUas_iff]
  have hTagged : w.tm.mem.read tid.from_tag ≠ [] := by
    rw [Ne, ← List.length_eq_zero_iff, Mem.length_read]
    exact (Msg.getTid_l_ne (hHas.has_tid w.tm.mem)).2
  constructor
  · rintro ⟨hCancels, ⟨hIn, hMatches⟩, hFirst⟩
    have hUnreleased : (w.tm.tx i).id.from_tag.l ≠ 0 := by
      intro hReleased
      apply hTagged
      rw [hMatches.id.from_tag, Mem.read_of_empty hReleased]
    have hMethod := (hServes.resolve_left hUnreleased).method
    exact ⟨hMatches.method.trans hMethod, hCancels, hUnreleased, hFirst⟩
  · intro hTaken
    have hThere := hServes.resolve_left hTaken.unreleased
    have hOk := hReachable.slots.1 i hThere.role
    refine ⟨hTaken.uncancelled, ⟨hReachable.uasIn i hThere.role, ?_⟩, hTaken.first⟩
    constructor
    · exact hOk.active
    · exact hThere.role
    · exact hThere.id
    · exact hTaken.agrees.trans hThere.method.symm

/-! ## What is made for a request -/

/-- The server transaction in slot `i` was made for a request on the way to this state. -/
def MadeFor (tpp : NewUasTrParams) (i : Nat) (w : World) : Prop :=
  ∃ (u : World) (tm tm₁ : Tm), u.Reachable ∧ Moves {} u.tm tm ∧
    (newUasTr tpp).run tm = some (.ok i, tm₁) ∧ Moves {} tm₁ w.tm ∧
      (w.tm.tx i).born = (tm₁.tx i).born

/-- A server transaction as it was made, and what has lasted of it. -/
structure Since (tpp : NewUasTrParams) (i : Nat) (w : World) (tm tm₁ : Tm) : Prop where
  run : (newUasTr tpp).run tm = some (.ok i, tm₁)
  ok : tm.UasOk
  wired : tm.Wired
  made : (tm₁.tx i).UasOk
  wired_made : tm₁.Wired
  grounded : (tm₁.tx i).role = .UAS → (tm₁.tx i).Grounded
  policy : tm.id_policy = w.tm.id_policy
  role : (w.tm.tx i).role = (tm₁.tx i).role
  wired_now : w.tm.Wired
  lasts : (tm₁.tx i).role = .UAS → (tm₁.tx i).Lasts {} (w.tm.tx i)

theorem MadeFor.since {tpp : NewUasTrParams} (h : w.MadeFor tpp i) : ∃ tm tm₁, w.Since tpp i tm tm₁ := by
  obtain ⟨u, tm, tm₁, hReachable, hBefore, hRun, hAfter, hBorn⟩ := h
  obtain ⟨hOk, hNumbered⟩ := hReachable.slots
  obtain ⟨hWired, hGrounded, -⟩ := hReachable.keeps
  have hMoves : Moves {} tm tm₁ := moves_newUasTr tpp _ _ _ (hBefore.uasOk hOk) hRun
  have hUntil : Moves {} u.tm tm₁ := hBefore.trans hMoves
  obtain ⟨tm₀, tid, tp, hMakes⟩ := newUasTr_makes (hBefore.uasOk hOk) hRun
  have hMade := hUntil.uasOk hOk i hMakes.activated.role
  have hSound := hUntil.sound hReachable.sound hNumbered
  have hNumbered₁ := hUntil.numbered hNumbered
  have hZero : (tm₁.tx i).born ≠ 0 := (hSound i).born.mp hMade.active
  have hRole := (hAfter.sameSlot hSound hNumbered₁ hZero (hNumbered₁ i) hBorn).2
  refine ⟨tm, tm₁, ?_⟩
  constructor
  · exact hRun
  · exact hBefore.uasOk hOk
  · exact hBefore.wired hWired
  · exact hMade
  · exact hUntil.wired hWired
  · exact hUntil.grounded hGrounded i
  · exact (Moves.policy (hMoves.trans hAfter)).symm
  · exact hRole
  · exact hAfter.wired (hUntil.wired hWired)
  · intro hUas
    exact hAfter.lasts (hBorn ▸ hNumbered₁ i) (hRole.trans hUas)

theorem MadeFor.serves {tpp : NewUasTrParams} {ruri : Str} (h : w.MadeFor tpp i)
    (hHas : tpp.request.HasTid tid) (hLine : tpp.request.sline = .req method ruri) :
    (w.tm.tx i).role = .UAS ∧ method ≠ .ACK ∧
      ((w.tm.tx i).state = .TERMINATED ∨ w.tm.Serves i method tid) := by
  obtain ⟨tm, tm₁, hSince⟩ := h.since
  obtain ⟨ruri', hLine', hServes⟩ := Tm.newUasTr_serves hHas hSince.ok hSince.wired hSince.run
  obtain ⟨hMethod, -⟩ := Sline.req.inj (hLine.symm.trans hLine')
  rw [← hMethod] at hServes
  have hLasts := hSince.lasts hServes.role
  have hAck : method ≠ .ACK := hServes.method ▸ hSince.made.method
  refine ⟨hSince.role.trans hServes.role, hAck, ?_⟩
  apply (hLasts.id.resolve_left fun h => h).imp_right
  intro hId
  exact hServes.lasts hHas hSince.wired_made hSince.wired_now (hSince.grounded hServes.role) hLasts hId

theorem madeFor_newUasTr {u : World} {tpp : NewUasTrParams} {r : Except TmError Nat} {tm₁ : Tm}
    (hReachable : u.Reachable) (hStep : u.step (.call (.newUasTr tpp)) = some w)
    (hRun : (newUasTr tpp).run u.tm = some (r, tm₁)) (hIndex : r.toOption = some i) :
    w.MadeFor tpp i := by
  simp only [step, perform, answerIndex] at hStep
  split at hStep
  · obtain ⟨r', tm', hRun', hDone⟩ := after_onTm hStep
    obtain rfl := Option.some.inj hDone
    obtain ⟨rfl, rfl⟩ := Prod.mk.inj (Option.some.inj (hRun.symm.trans hRun'))
    cases r with
    | error e => cases hIndex
    | ok j =>
      obtain rfl := Option.some.inj hIndex
      exact ⟨u, u.tm, tm₁, hReachable, .refl, hRun, .refl, rfl⟩
  · cases hStep

theorem uasCancelOk_makes {tm tm' : Tm} {cancelp : Msg} {index : Nat}
    (hRun : (uasCancelOk cancelp index).run tm = some (.ok (), tm')) :
    ∃ (tpp : NewUasTrParams) (j : Nat) (tm₁ : Tm), tpp.request = cancelp ∧
      (newUasTr tpp).run tm = some (.ok j, tm₁) ∧
        (sendUasResponse j { status := resOk }).run tm₁ = some (.ok (), tm') := by
  obtain ⟨_, _, hDone, hRun⟩ := Op.bind_ok.mp hRun
  obtain ⟨rfl, rfl⟩ := Op.get_ok.mp hDone
  obtain ⟨_, _, hDone, hRun⟩ := Op.bind_ok.mp hRun
  obtain ⟨-, rfl⟩ := Op.assert_ok.mp hDone
  obtain ⟨_, _, hDone, hRun⟩ := Op.bind_ok.mp hRun
  obtain ⟨-, rfl⟩ := Op.require_ok.mp hDone
  obtain ⟨_, _, hDone, hRun⟩ := Op.bind_ok.mp hRun
  obtain ⟨-, rfl⟩ := Op.assert_ok.mp hDone
  obtain ⟨_, _, hDone, hRun⟩ := Op.bind_ok.mp hRun
  obtain ⟨-, rfl⟩ := Op.require_ok.mp hDone
  obtain ⟨j, tm₁, hMade, hSent⟩ := Op.bind_ok.mp hRun
  exact ⟨_, j, tm₁, rfl, hMade, hSent⟩

theorem madeFor_uasCancelOk {u : World} {cancelp : Msg} {index : Nat} (hReachable : u.Reachable)
    (hStep : u.step (.call (.uasCancelOk cancelp index)) = some w)
    (hOk : w.log = u.log ++ [.reply (.ok .ok)]) :
    ∃ (tpp : NewUasTrParams) (j : Nat), tpp.request = cancelp ∧ w.MadeFor tpp j := by
  simp only [step, perform, answerUnit] at hStep
  split at hStep
  · obtain ⟨r, tm', hRun, hDone⟩ := after_onTm hStep
    obtain rfl := Option.some.inj hDone
    cases r with
    | error e => cases List.append_cancel_left hOk
    | ok _ =>
      obtain ⟨tpp, j, tm₁, hRequest, hMade, hSent⟩ := uasCancelOk_makes hRun
      have hMoves : Moves {} u.tm tm₁ := moves_newUasTr tpp _ _ _ hReachable.slots.1 hMade
      have hAfter : Moves {} tm₁ tm' :=
        (acts_sendUasResponse _ _ _ _ _ (hMoves.uasOk hReachable.slots.1) hSent).moves
      exact ⟨tpp, j, hRequest, u, u.tm, tm₁, hReachable, .refl, hMade, hAfter,
        sendUasResponse_born hSent j⟩
  · cases hStep

/-- An OPTIONS request from the network. -/
def optionsIn : NewUasTrParams := receivedFrom (requestIn .OPTIONS 1 "<sip:b@h>")

/-- A 200 to it. -/
def optionsAnswered : List Label := [.call (.sendUasResponse 0 { status := resOk })]

/-- The CANCEL of an INVITE from the network. -/
def cancelIn : NewUasTrParams := receivedFrom (requestIn .CANCEL 1 "<sip:b@h>")

/-- An INVITE whose application is told of its CANCEL. -/
def inviteCancelled : List Label :=
  [.call (.newUasTr { receivedFrom (requestIn .INVITE 1 "<sip:b@h>") with
      callbacks := some { cancel := true } }),
    .call (.handleIncoming 0 (some cancelIn.request))]

end World

end Microsippy
