import Microsippy.Messages
import Microsippy.FailedAnswer

/-! # The final response

Once a final response is accepted for a server transaction, it is all that is sent for it.
-/

namespace Microsippy

set_option autoImplicit false

/-! ## What lasts over a run -/

/-- A server transaction with a final response accepted. -/
def Txi.Answered (tp : Txi) : Prop := tp.role = .UAS ∧ 200 ≤ tp.last_status_code

/-- All that may happen to a server transaction. -/
def Allow.any : Allow := { stale := True, rearm := True, owns := True }

/-- The same but for a release. -/
def Allow.unreleased : Allow := { rearm := True, owns := True }

theorem Txi.Lasts.mono {allow more : Allow} {tp tp' : Txi} (h : tp.Lasts allow tp')
    (hStale : allow.stale → more.stale) (hRearm : more.rearm) (hOwns : more.owns) :
    tp.Lasts more tp' := by
  constructor
  · constructor
    · constructor
      · exact h.ctl.life
      · exact h.ctl.method
      · exact h.ctl.ended
      · exact Or.inl hOwns
      · exact h.ctl.done
      · rintro hRole hTimed
        have hOnward := h.ctl.onward hRole hTimed
        exact ⟨hOnward.timed, hOnward.phase, hOnward.type, Or.inl hRearm⟩
    · exact h.cache
    · exact h.checkpoint
    · exact h.heap
    · exact h.id.imp_left hStale
  · exact h.peer
  · rintro hRole hFinal
    obtain ⟨hLast, hStored⟩ := h.answer hRole hFinal
    exact ⟨hLast, hStored.imp_left hStale⟩
  · exact h.grounded
  · exact h.hashed

/-- Every server transaction is in the table. -/
def Tm.UasIn (tm : Tm) : Prop := ∀ j, (tm.tx j).role = .UAS → j < tm.max_transactions

theorem Moves.uasIn {allow : Allow} {tm tm' : Tm} (h : Moves allow tm tm') (hOld : tm.UasIn) :
    tm'.UasIn := by
  induction h with
  | refl => exact hOld
  | @tail t u _ hStep ih =>
    rintro k hRole
    cases hStep with
    | inl hAct =>
      rw [hAct.max]
      cases hAct.slot k with
      | inl hUac =>
        rw [hUac] at hRole
        cases hRole
      | inr hLasts => exact ih k (hLasts.ctl.life.role.symm.trans hRole)
    | inr hEnters =>
      obtain ⟨j, tp, -, -, -, -, -, -, hIn, -⟩ := hEnters
      by_cases hk : k = j
      · exact hk ▸ hIn
      · rw [Tm.enter, Tm.set_other _ _ hk] at hRole
        exact ih k hRole

/-- The transaction in a slot was there before. -/
theorem Moves.sameSlot {allow : Allow} {tm tm' : Tm} {i b : Nat} (h : Moves allow tm tm')
    (hSound : tm.Sound) (hNumbered : tm.Numbered) (hZero : b ≠ 0) (hSerial : b < tm.serial)
    (hBorn : (tm'.tx i).born = b) :
    (tm.tx i).born = b ∧ (tm'.tx i).role = (tm.tx i).role := by
  cases hRole : (tm'.tx i).role with
  | UAS =>
    have hLife := (h.lasts (hBorn ▸ hSerial) hRole).ctl.life
    exact ⟨hLife.born.symm.trans hBorn, hRole.symm.trans hLife.role⟩
  | UAC =>
    have hActive := ((h.sound hSound hNumbered) i).born.mpr (hBorn ▸ hZero)
    have hLife := (h.client hActive (hBorn ▸ hSerial) hRole).life
    exact ⟨hLife.born.symm.trans hBorn, hRole.symm.trans hLife.role⟩

/-- The stored message is the same in any state of the manager that has the slot's heap as it was. -/
theorem Tm.stored_eq {tm tm' : Tm} {i : Nat} (hWired : tm.Wired) (hWired' : tm'.Wired)
    (hOwns : (tm.tx i).scratch.Owns (tm.tx i).raw) (hRaw : (tm'.tx i).raw = (tm.tx i).raw)
    (hScratch : (tm'.tx i).scratch = (tm.tx i).scratch)
    (hTarget : (tm'.tx i).target = (tm.tx i).target) : tm'.stored i = tm.stored i := by
  have hRead : tm'.mem.read (tm.tx i).raw = tm.mem.read (tm.tx i).raw := by
    rw [← hWired'.mem i, ← hWired.mem i, hScratch]
    obtain ⟨s, hLit⟩ | ⟨k, hSrc, hSlot⟩ := hOwns
    · exact Mem.read_of_lit hLit _ _
    · rw [Heap.read_own hSrc hSlot, Heap.read_own hSrc hSlot]
  rw [Tm.stored, Tm.stored, hRaw, hTarget, hRead]

/-- An address and the bytes of its host. -/
def Addr.at (m : Mem) (a : Addr) : Addr × Bytes := ({ a with host := Str.null }, m.read a.host)

/-! ## What is accepted and refused -/

theorem Ctl.uasAnswered_life {p : TimerPolicy} {method : Method} {code : Nat} {no_ack : Bool}
    {c c' : Ctl} (h : c.uasAnswered p method code no_ack = some c') : c.SameLife c' := by
  simp only [Ctl.uasAnswered] at h
  split at h
  · obtain rfl := Option.some.inj h
    exact ⟨rfl, rfl, rfl, fun _ => rfl⟩
  · split at h
    · obtain ⟨ms, -, rfl⟩ := Option.map_eq_some_iff.mp h
      exact ⟨rfl, rfl, rfl, fun _ => rfl⟩
    · split at h
      · obtain ⟨ms, -, rfl⟩ := Option.map_eq_some_iff.mp h
        exact ⟨rfl, rfl, rfl, fun _ => rfl⟩
      · obtain rfl := Option.some.inj h
        exact ⟨rfl, rfl, rfl, fun _ => rfl⟩

/-- What a response that is accepted leaves of its slot. -/
theorem sendUasResponse_ok {tm tm' : Tm} {i : Nat} {rpp : UasResponseParams}
    (hRun : (sendUasResponse i rpp).run tm = some (.ok (), tm')) :
    (tm.tx i).role = .UAS ∧ ∃ tp : Txi, tm.set i tp = tm' ∧ (tm.tx i).toCtl.SameLife tp.toCtl ∧
      tp.last_status_code.toNat = rpp.status.code.1 := by
  rw [sendUasResponse_eq] at hRun
  obtain ⟨_, _, hMay, hRun⟩ := Op.bind_ok.mp hRun
  obtain ⟨rfl, hRole, -, -⟩ := uasMayAnswer_ok hMay
  obtain ⟨tp, hPart, rfl⟩ := onSlot_ok.mp hRun
  obtain ⟨scratch, ⟨e, hFailed, -⟩ | ⟨-, off, l, c, hc, rfl⟩⟩ := uasAnswerSlot_some hPart
  · cases hFailed
  · refine ⟨hRole, _, rfl, Ctl.uasAnswered_life hc, ?_⟩
    change c.last_status_code.toNat = _
    rw [(Ctl.uasAnswered_same hc).1,
      UInt16.toNat_ofNat_of_lt' (Nat.lt_of_le_of_lt rpp.status.code.2.2 (by decide))]

theorem sendUasResponse_born {tm tm' : Tm} {i : Nat} {rpp : UasResponseParams}
    (hRun : (sendUasResponse i rpp).run tm = some (.ok (), tm')) (j : Nat) :
    (tm'.tx j).born = (tm.tx j).born := by
  obtain ⟨-, tp, rfl, hLife, -⟩ := sendUasResponse_ok hRun
  by_cases hj : j = i
  · subst hj
    rw [Tm.set_same]
    exact hLife.born
  · rw [Tm.set_other _ _ hj]

/-- A final response that is accepted. -/
theorem sendUasResponse_accepted {tm tm' : Tm} {i : Nat} {rpp : UasResponseParams}
    (hRun : (sendUasResponse i rpp).run tm = some (.ok (), tm')) (hFinal : 200 ≤ rpp.status.code.1) :
    (tm'.tx i).Answered ∧ (tm'.tx i).born = (tm.tx i).born := by
  refine ⟨?_, sendUasResponse_born hRun i⟩
  obtain ⟨hRole, tp, rfl, hLife, hCode⟩ := sendUasResponse_ok hRun
  rw [Tm.set_same]
  refine ⟨hLife.role.trans hRole, UInt16.le_iff_toNat_le.mpr ?_⟩
  exact hCode ▸ hFinal

/-- A response after a final one is refused. -/
theorem sendUasResponse_refused {tm : Tm} {i : Nat} (hIn : i < tm.max_transactions)
    (hOk : (tm.tx i).UasOk) (hAnswered : (tm.tx i).Answered) (rpp : UasResponseParams) :
    (sendUasResponse i rpp).run tm = some (.error .UNSUPPORTED, tm) := by
  rw [sendUasResponse_eq, uasMayAnswer]
  simp only [Op.run_bind, Op.run_get, Op.andThen_ok, Op.run_assert, Op.run_require, if_pos hIn,
    if_pos hOk.active, if_pos hAnswered.1, if_neg (UInt16.not_lt.mpr hAnswered.2)]
  split
  · rfl
  · rfl

/-- A slot that is activated for a request received. -/
structure Txi.Activated (tid : Tid) (tp tp' : Txi) : Prop where
  role : tp'.role = .UAS
  method : tp'.method_type = tp.cache.method_type
  peer : tp'.peer = tp.peer
  scratch : tp'.scratch = tp.scratch
  to_tag : tp'.cache.to_tag = tp.cache.to_tag
  id : tp'.id = {
    hash := tid.hash, branch := tp.cache.branch, call_id := tp.cache.call_id
    from_tag := tp.cache.from_tag, cseq := tid.cseq.val }

theorem activateUasSlot_activated {i : Nat} {tid : Tid} {timers : Tm → Option TimerPolicy} {tm tm' : Tm}
    {u : Unit} (hRun : (activateUasSlot i tid timers).run tm = some (.ok u, tm')) :
    (tm.tx i).Activated tid (tm'.tx i) := by
  rw [activateUasSlot, Op.run_bind, Op.run_modify, Op.andThen_ok] at hRun
  obtain ⟨tp, hPart, rfl⟩ := onSlot_ok.mp hRun
  rw [Op.run_bind, Op.run_modify, Op.andThen_ok, Op.run_modify] at hPart
  obtain ⟨-, rfl⟩ := Prod.mk.inj (Option.some.inj hPart)
  rw [Tm.set_same, Tm.activate, Tm.set_same]
  exact ⟨rfl, rfl, rfl, rfl, rfl, rfl⟩

/-- The slot of a server transaction that is made, as it is filled and activated. -/
structure Tm.Makes (tpp : NewUasTrParams) (i : Nat) (tm tm' tm₁ : Tm) (tid : Tid) (tp : Txi) : Prop where
  request_tid : tpp.request.getTid tm.mem = some tid
  alloc : allocSlot.run tm = some (.ok i, tm₁)
  filled : tp.Filled tm₁
  peer : tp.PeerCopied tpp tm₁
  copied : tp.TidCopied tm₁.mem tid
  tag : tm₁.LaysTags → ∀ P, tm₁.TagsMeet P → ∀ m, P ((tp.scratch.mem m).read tp.cache.to_tag)
  line : ∃ ruri, tpp.request.sline = .req tp.cache.method_type ruri
  activated : tp.Activated tid (tm'.tx i)

theorem newUasTr_makes {tm tm' : Tm} {i : Nat} {tpp : NewUasTrParams} (hOk : tm.UasOk)
    (hRun : (newUasTr tpp).run tm = some (.ok i, tm')) :
    ∃ tm₁ tid tp, tm.Makes tpp i tm' tm₁ tid tp := by
  obtain ⟨_, _, hDone, hRun⟩ := Op.bind_ok.mp hRun
  obtain ⟨rfl, rfl⟩ := Op.get_ok.mp hDone
  obtain ⟨⟨method, ruri⟩, _, hDone, hRun⟩ := Op.bind_ok.mp hRun
  obtain ⟨hLine, rfl⟩ := Op.demand_ok.mp hDone
  obtain ⟨_, _, hDone, hRun⟩ := Op.bind_ok.mp hRun
  obtain ⟨-, rfl⟩ := Op.require_ok.mp hDone
  obtain ⟨tid, _, hDone, hRun⟩ := Op.bind_ok.mp hRun
  obtain ⟨hTid, rfl⟩ := Op.orElse_ok.mp hDone
  obtain ⟨_, _, hDone, hRun⟩ := Op.bind_ok.mp hRun
  obtain ⟨-, rfl⟩ := Op.require_ok.mp hDone
  obtain ⟨j, tm₁, hAlloc, hRun⟩ := Op.bind_ok.mp hRun
  obtain ⟨_, tm₂, hFilling, hRun⟩ := Op.bind_ok.mp hRun
  obtain ⟨_, tm₃, hActivate, hRun⟩ := Op.bind_ok.mp hRun
  obtain ⟨rfl, rfl⟩ := Op.pure_ok.mp hRun
  obtain ⟨tp, hPart, rfl⟩ := onSlot_ok.mp hFilling
  have hBlank := allocSlot_blank hOk hAlloc
  have hFill := Op.cleanup_ok.mp hPart
  obtain ⟨hFilled, hPeer, hCopied, hTag⟩ := fillUasTr_filled hBlank.2.2.2 hFill
  have hActivated := activateUasSlot_activated hActivate
  rw [Tm.set_same] at hActivated
  refine ⟨tm₁, tid, tp, hTid, hAlloc, hFilled, hPeer, hCopied, hTag, ⟨ruri, ?_⟩, hActivated⟩
  rw [(fillUasTr_work hFill).2.1]
  split at hLine
  · obtain ⟨rfl, rfl⟩ := Prod.mk.inj (Option.some.inj hLine)
    assumption
  · cases hLine

/-- A string the slot was filled with reads as in the slot that was filled. -/
theorem Tm.Makes.read {tm tm' tm₁ : Tm} {i : Nat} {tpp : NewUasTrParams} {tid : Tid} {tp : Txi}
    (h : tm.Makes tpp i tm' tm₁ tid tp) (hWired : tm'.Wired) {s : Str}
    (hLaid : s.l = 0 ∨ tp.scratch.Laid s) :
    tm'.mem.read s = (tp.scratch.mem tm₁.mem).read s := by
  rw [← hWired.mem i, h.activated.scratch]
  cases hLaid with
  | inl hEmpty => rw [Mem.read_of_empty hEmpty, Mem.read_of_empty hEmpty]
  | inr hLaid =>
    obtain ⟨b, hLit⟩ | ⟨k, hSrc, hIs, -⟩ := hLaid
    · exact Mem.read_of_lit hLit _ _
    · rw [Heap.read_own hSrc hIs, Heap.read_own hSrc hIs]

/-- The address a server transaction answers to is that of the request, unless that lies in the very
slot that is filled. -/
theorem newUasTr_peer {tm tm' : Tm} {i : Nat} {tpp : NewUasTrParams} (hOk : tm.UasOk)
    (hWired : tm.Wired) (hRun : (newUasTr tpp).run tm = some (.ok i, tm')) :
    (tm'.tx i).role = .UAS ∧ ∃ tm₁, allocSlot.run tm = some (.ok i, tm₁) ∧
      ((tpp.peer tm₁).host.src ≠ .scratch i →
        (tm'.tx i).peer.at tm'.mem = (tpp.peer tm₁).at tm₁.mem) := by
  have hMoves : Moves {} tm tm' := moves_newUasTr tpp _ _ _ hOk hRun
  have hWired' := hMoves.wired hWired
  obtain ⟨tm₁, tid, tp, hMakes⟩ := newUasTr_makes hOk hRun
  refine ⟨hMakes.activated.role, tm₁, hMakes.alloc, fun hApart => ?_⟩
  have hSlot : tp.scratch.slot = some i := hMakes.activated.scratch ▸ hWired' i
  obtain ⟨scratch, hSame, hHost⟩ := hMakes.peer.host
  have hForeign : (scratch.mem tm₁.mem).read (tpp.peer tm₁).host = tm₁.mem.read (tpp.peer tm₁).host := by
    apply Heap.read_foreign
    rintro k hSrc hIs
    rw [hSame, hSlot] at hIs
    obtain rfl := Option.some.inj hIs
    exact hApart hSrc
  have hCopy := hMakes.read hWired' hMakes.filled.named.host
  have hHead : ({ tp.peer with host := Str.null } : Addr) =
      { tpp.peer tm₁ with host := Str.null } := by
    rw [hMakes.peer.peer]
  rw [hMakes.activated.peer, Addr.at, Addr.at, hCopy.trans (hHost.trans hForeign), hHead]

namespace World

variable {ok : World → Label → Prop} {w w' : World} {i : Nat} {l : Label}

/-- The return of a callback that releases what is in slot `i`, by now a server transaction that has
not ended. -/
def ReleasesServer (w : World) (l : Label) (i : Nat) : Prop :=
  ∃ rval f stack, w.stack = f :: stack ∧ l = .ret rval ∧ f.clientSlot = some i ∧ f.Releases w.tm ∧
    (w.tm.tx i).role = .UAS ∧ (w.tm.tx i).state ≠ .TERMINATED

theorem ret_lasts {rval : Int} {f : Frame} {stack : List Frame} (hStack : w.stack = f :: stack)
    (hStale : f.Stale w.tm) (hStep : w.step (.ret rval) = some w')
    (hNot : ¬ w.ReleasesServer (.ret rval) i) (hRole : (w.tm.tx i).role = .UAS) :
    (w.tm.tx i).Lasts .unreleased (w'.tm.tx i) := by
  have hSlot : ∃ index, f.clientSlot = some index := by
    cases f with
    | uacTimeout index rest born => exact ⟨index, rfl⟩
    | response index code born => exact ⟨index, rfl⟩
    | _ => cases hStale
  obtain ⟨index, hSlot⟩ := hSlot
  cases ret_some hStack hSlot hStep with
  | inl hReleased =>
    obtain ⟨hReleases, r, tp, hRun, hIs⟩ := hReleased
    rw [hIs]
    by_cases hi : i = index
    · subst hi
      rw [Tm.set_same]
      apply lasts_releaseOutbound _ _ _ (Or.inr ?_) hRun
      by_contra hLive
      exact hNot ⟨rval, f, stack, hStack, rfl, hSlot, hReleases, hRole, hLive⟩
    · rw [Tm.set_other _ _ hi]
      exact Std.Refl.refl _
  | inr hSame =>
    rw [hSame.2]
    exact Std.Refl.refl _

theorem step_lastsAny (hReachable : w.Reachable) (hStep : w.step l = some w')
    (hRole : (w.tm.tx i).role = .UAS) (hBorn : (w'.tm.tx i).born = (w.tm.tx i).born) :
    (w.tm.tx i).Lasts (w.grants l) (w'.tm.tx i) := by
  obtain ⟨hOk, hNumbered⟩ := hReachable.slots
  have hSound := hReachable.sound
  have hMoves := step_moves hOk hStep
  have hZero : (w.tm.tx i).born ≠ 0 := (hSound i).born.mp (hOk i hRole).active
  have hSame := hMoves.sameSlot hSound hNumbered hZero (hNumbered i) hBorn
  exact hMoves.lasts (hBorn ▸ hNumbered i) (hSame.2.trans hRole)

/-- What a step leaves of a server transaction that it does not release. -/
theorem step_lasts (hReachable : w.Reachable) (hStep : w.step l = some w')
    (hNot : ¬ w.ReleasesServer l i) (hRole : (w.tm.tx i).role = .UAS)
    (hBorn : (w'.tm.tx i).born = (w.tm.tx i).born) :
    (w.tm.tx i).Lasts .unreleased (w'.tm.tx i) := by
  by_cases hStale : (w.grants l).stale
  · obtain ⟨rval, f, stack, hStack, rfl, hStale⟩ := hStale
    exact ret_lasts hStack hStale hStep hNot hRole
  · have hLasts := step_lastsAny hReachable hStep hRole hBorn
    exact hLasts.mono (fun h => hStale h) trivial trivial

/-- A run with a server transaction in slot `i` as a run of steps that keep it there. -/
theorem run_sameSlot {t : World} (hReachable : w.Reachable) (hRun : Transition.Run step ok w t)
    (hStep : t.step l = some w') (hRole : (w.tm.tx i).role = .UAS)
    (hBorn : (w'.tm.tx i).born = (w.tm.tx i).born) : (t.tm.tx i).born = (w.tm.tx i).born := by
  have hReachableT := hReachable.run hRun
  obtain ⟨hOk, hNumbered⟩ := hReachable.slots
  have hZero : (w.tm.tx i).born ≠ 0 := (hReachable.sound i).born.mp (hOk i hRole).active
  obtain ⟨hSerial, hOkT⟩ := run_serial_le hOk hRun
  exact ((step_moves hOkT hStep).sameSlot hReachableT.sound hReachableT.slots.2 hZero
    (Nat.lt_of_lt_of_le (hNumbered i) hSerial) hBorn).1

/-- What a run leaves of a server transaction. -/
theorem run_lasts (hReachable : w.Reachable)
    (hRun : Transition.Run step (fun w l => ¬ w.ReleasesServer l i) w w')
    (hRole : (w.tm.tx i).role = .UAS) (hBorn : (w'.tm.tx i).born = (w.tm.tx i).born) :
    (w.tm.tx i).Lasts .unreleased (w'.tm.tx i) := by
  induction hRun with
  | refl => exact Std.Refl.refl _
  | @snoc t u l hFirst hNot hStep ih =>
    have hSame := run_sameSlot hReachable hFirst hStep hRole hBorn
    have hWas := ih hSame
    have hRoleT := hWas.ctl.life.role.trans hRole
    exact IsTrans.trans _ _ _ hWas
      (step_lasts (hReachable.run hFirst) hStep hNot hRoleT (hBorn.trans hSame.symm))

/-- The server transactions of a reachable state are in the table. -/
theorem ReachableBy.uasIn (h : ReachableBy ok w) : w.tm.UasIn := by
  obtain ⟨p, tm, hCtor, hRun⟩ := h
  induction hRun with
  | refl =>
    rintro j hRole
    have hFresh : (tm.tx j).role = .UAS := hRole
    rw [(Tm.ctor_fresh hCtor).1] at hFresh
    cases hFresh
  | snoc hFirst _ hStep ih =>
    exact (step_moves (ReachableBy.slots ⟨p, tm, hCtor, hFirst⟩).1 hStep).uasIn ih

/-! ## What is sent -/

/-- What a server transaction with a final response sends in its turn. -/
theorem sendsNow_stored {now : UInt64} {tm : Tm} {u : World} (hReachable : w.Reachable)
    (hAnswered : (w.tm.tx i).Answered) (hLasts : (w.tm.tx i).Lasts .unreleased (u.tm.tx i))
    (hReachableU : u.Reachable) (hSends : u.SendsNow now i tm) :
    tm.stored i = w.tm.stored i := by
  have hRole := hLasts.ctl.life.role.trans hAnswered.1
  cases hSends with
  | uac hUac hRun =>
    rw [hRole] at hUac
    cases hUac
  | uas _ hRun =>
    obtain ⟨-, hLive, -, rfl⟩ := uasRun_send hRun
    obtain ⟨hWired, hGrounded, -⟩ := hReachable.keeps
    obtain ⟨hWiredU, hGroundedU, -⟩ := hReachableU.keeps
    obtain ⟨hRaw, hScratch⟩ :=
      ((hLasts.answer hAnswered.1 hAnswered.2).stored.resolve_left id).resolve_left hLive
    have hTarget : (u.tm.tx i).target = (w.tm.tx i).target := by
      rw [(hGroundedU i hRole).target, (hGrounded i hAnswered.1).target, hLasts.peer]
    have hSent : ∀ c : Ctl, (u.tm.set i { u.tm.tx i with toCtl := c }).Wired := by
      rintro c k
      by_cases hk : k = i
      · subst hk
        rw [Tm.set_same]
        exact hWiredU k
      · rw [Tm.set_other _ _ hk]
        exact hWiredU k
    apply Tm.stored_eq hWired (hSent _) (hGrounded i hAnswered.1).raw
    · rw [Tm.set_same]
      exact hRaw
    · rw [Tm.set_same]
      exact hScratch
    · rw [Tm.set_same]
      exact hTarget

theorem run_messages (hReachable : w.Reachable) (hAnswered : (w.tm.tx i).Answered)
    (hRun : Transition.Run step (fun w l => ¬ w.ReleasesServer l i) w w') :
    ∃ n, w'.messages i (w.tm.tx i).born =
      w.messages i (w.tm.tx i).born ++ List.replicate n (w.tm.stored i) := by
  induction hRun with
  | refl => exact ⟨0, (List.append_nil _).symm⟩
  | @snoc t u l hFirst _ hStep ih =>
    obtain ⟨n, hSoFar⟩ := ih
    cases step_messages (i := i) (b := (w.tm.tx i).born) hStep with
    | inl hSame => exact ⟨n, hSame.trans hSoFar⟩
    | inr hMore =>
      obtain ⟨now, rval, outp, stack, tm, -, -, hSends, hBorn, hMore⟩ := hMore
      have hReachableT := hReachable.run hFirst
      obtain ⟨hOk, hNumbered⟩ := hReachable.slots
      obtain ⟨hSerial, hOkT⟩ := run_serial_le hOk hFirst
      have hZero : (w.tm.tx i).born ≠ 0 := (hReachable.sound i).born.mp (hOk i hAnswered.1).active
      have hTurn : Moves {} t.tm tm := by
        cases hSends with
        | uac hRole hRun => exact (acts_uacRun i now _ _ _ ⟨hOkT, hRole⟩ hRun).moves
        | uas hRole hRun => exact (acts_uasRun i now _ _ _ hRole hRun).moves
      have hThere := hTurn.sameSlot hReachableT.sound hReachableT.slots.2 hZero
        (Nat.lt_of_lt_of_le (hNumbered i) hSerial) hBorn
      have hLasts := run_lasts hReachable hFirst hAnswered.1 hThere.1
      rw [sendsNow_stored hReachable hAnswered hLasts hReachableT hSends, hSoFar] at hMore
      refine ⟨n + 1, hMore.trans ?_⟩
      rw [List.append_assoc, List.replicate_succ']

/-! ## One final response -/

/-- What a run leaves of a server transaction with a final response: that one alone is sent, to where
the request came from, and no other is accepted. -/
structure AnswersAlone (w w' : World) (i : Nat) : Prop where
  messages : ∃ n, w'.messages i (w.tm.tx i).born =
    w.messages i (w.tm.tx i).born ++ List.replicate n (w.tm.stored i)
  source : w.tm.stored i = (w.tm.mem.read (w.tm.tx i).raw, (w.tm.tx i).peer)
  refused : (w'.tm.tx i).born = (w.tm.tx i).born → ∀ rpp,
    (sendUasResponse i rpp).run w'.tm = some (.error .UNSUPPORTED, w'.tm)

theorem run_peer (hReachable : w.Reachable)
    (hRun : Transition.Run step (fun w l => ¬ w.ReleasesServer l i) w w')
    (hRole : (w.tm.tx i).role = .UAS) (hBorn : (w'.tm.tx i).born = (w.tm.tx i).born) :
    (w'.tm.tx i).peer.at w'.tm.mem = (w.tm.tx i).peer.at w.tm.mem := by
  have hLasts := run_lasts hReachable hRun hRole hBorn
  obtain ⟨hWired, hGrounded, -⟩ := hReachable.keeps
  obtain ⟨hWired', -, -⟩ := (hReachable.run hRun).keeps
  have hBase := hGrounded i hRole
  rw [hLasts.peer, Addr.at, Addr.at]
  cases hBase.host with
  | inl hEmpty => rw [Mem.read_of_empty hEmpty, Mem.read_of_empty hEmpty]
  | inr hHolds =>
    have hRead := hLasts.heap.read hBase.top hHolds w.tm.mem w'.tm.mem
    rw [hWired.mem, hWired'.mem] at hRead
    rw [hRead]

theorem run_answersAlone (hReachable : w.Reachable) (hAnswered : (w.tm.tx i).Answered)
    (hRun : Transition.Run step (fun w l => ¬ w.ReleasesServer l i) w w') : w.AnswersAlone w' i := by
  constructor
  · exact run_messages hReachable hAnswered hRun
  · rw [Tm.stored, (hReachable.keeps.2.1 i hAnswered.1).target]
  · rintro hBorn rpp
    have hLasts := run_lasts hReachable hRun hAnswered.1 hBorn
    have hReachable' := hReachable.run hRun
    have hRole := hLasts.ctl.life.role.trans hAnswered.1
    have hLast := (hLasts.answer hAnswered.1 hAnswered.2).last
    apply sendUasResponse_refused (hReachable'.uasIn i hRole) (hReachable'.slots.1 i hRole)
    exact ⟨hRole, hLast.symm ▸ hAnswered.2⟩

/-- An INVITE received and refused. -/
def inviteRefused : List Label :=
  [.call (.newUasTr (receivedFrom (requestIn .INVITE 1 "<sip:b@h>"))),
    .call (.sendUasResponse 0 { status := resReqTerm })]

/-- Two runs that send, and another response tried. -/
def refusalSent : List Label :=
  [.call (.run 0 true), .turn 0, .turn 0, .call (.run 500 true), .turn 0, .turn 0,
    .call (.sendUasResponse 0 { status := resOk })]

/-- A 200 to the first request of slot 2. -/
def optionsOkIn2 : Msg :=
  { sline := .res resOk.code
    hdrs := [
      ⟨.VIA, Str.null, some (.via { params := [⟨Sample.str "branch", Sample.str "z9hG4bK-2-1"⟩] })⟩,
      ⟨.FROM, Str.null, some (.nameaddr { params := [⟨Sample.str "tag", Sample.str "t2"⟩] })⟩,
      ⟨.TO, Str.null, some (.nameaddr { params := [⟨Sample.str "tag", Sample.str "x"⟩] })⟩,
      ⟨.CALLID, Sample.str "c2", some (.generic (Sample.str "c2"))⟩,
      ⟨.CSEQ, Str.null, some (.cseq { val := 1, method := .OPTIONS })⟩] }

/-- An INVITE is cancelled and answered, so that its ACK has a BYE behind it in slot 2. The BYE is
dropped for a request, and the callback of the request's response drops that for a server transaction
and answers it with a 200. -/
def takenByServer : List Label :=
  [.call (.newUacTr (Sample.request .INVITE)), .call (.run 0 false), .turn 0, .turn 0, .turn 0, .turn 0,
    .call (.cancel 0),
    .call (.handleIncoming 1 (some (Sample.response resOk.code .INVITE))),
    .call (.dropTransaction 2),
    .call (.newUacTr { Sample.request .OPTIONS with callbacks := some ⟨true, true⟩ }),
    .call (.handleIncoming 3 (some optionsOkIn2)), .call (.dropTransaction 2),
    .call (.newUasTr (receivedFrom (requestIn .OPTIONS 1 "<sip:b@h>"))),
    .call (.sendUasResponse 2 { status := resOk })]

/-- The callback returns, and a run sends the ACK. -/
def ackSent : List Label := [.ret 0, .call (.run 5 true), .turn 0, .turn 0, .turn 0, .turn 0]

end World

end Microsippy
