import Microsippy.Owners

/-! # Matching ACKs and CANCELs

Which server transaction an ACK or a CANCEL is for, in every reachable state.
-/

namespace Microsippy

set_option autoImplicit false

/-! ## What is kept of requests over runs -/

theorem Moves.wired {allow : Allow} {tm tm' : Tm} (h : Moves allow tm tm') (hOld : tm.Wired) :
    tm'.Wired := by
  induction h with
  | refl => exact hOld
  | tail _ hStep ih =>
    cases hStep with
    | inl hAct => exact fun k => (hAct.storage k).trans (ih k)
    | inr hEnters =>
      obtain ⟨j, tp, -, -, -, -, hSlot, -, -, -, -⟩ := hEnters
      intro k
      by_cases hk : k = j
      · subst hk
        rw [Tm.enter, Tm.set_same]
        exact hSlot.trans (ih k)
      · rw [Tm.enter, Tm.set_other _ _ hk]
        exact ih k

namespace World

/-- What the slots of a reachable state keep of requests. -/
theorem ReachableBy.keeps {ok : World → Label → Prop} {w : World} (h : ReachableBy ok w) :
    w.tm.Wired ∧ w.tm.Grounded ∧ (w.tm.LaysTags → w.tm.Hashed) := by
  obtain ⟨p, tm, hCtor, hRun⟩ := h
  induction hRun with
  | refl =>
    have hNone : ∀ j, (tm.tx j).role ≠ .UAS := by
      intro j hRole
      rw [(Tm.ctor_fresh hCtor).1] at hRole
      cases hRole
    exact ⟨Tm.ctor_wired hCtor, fun j hRole => absurd hRole (hNone j),
      fun _ j hRole => absurd hRole (hNone j)⟩
  | snoc hFirst _ hStep ih =>
    obtain ⟨hOk, -⟩ := ReachableBy.slots ⟨p, tm, hCtor, hFirst⟩
    obtain ⟨hWired, hGrounded, hHashed⟩ := ih
    have hMoves := step_moves hOk hStep
    refine ⟨hMoves.wired hWired, hMoves.grounded hGrounded, fun hTags => ?_⟩
    have hBefore := fun policy hIs => hTags policy (hMoves.policy.trans hIs)
    exact hMoves.hashed hBefore hGrounded (hHashed hBefore)

end World

/-! ## The first of many -/

/-- The first index below `n` with a property, none when there is none. -/
def FirstOf (n : Nat) (p : Nat → Prop) : Option Nat → Prop
  | none => ∀ i < n, ¬ p i
  | some i => (i < n ∧ p i) ∧ ∀ j < i, ¬ p j

namespace FirstOf

variable {n : Nat} {p q : Nat → Prop} {r r' : Option Nat}

theorem of_find? {test : Nat → Bool} (h : ∀ i, test i = true ↔ p i) :
    FirstOf n p ((List.range n).find? test) := by
  cases hFind : (List.range n).find? test with
  | none =>
    intro i hi hp
    exact List.find?_eq_none.mp hFind i (List.mem_range.mpr hi) ((h i).mpr hp)
  | some i =>
    obtain ⟨hTest, hIn, hBefore⟩ := List.find?_range_eq_some.mp hFind
    refine ⟨⟨List.mem_range.mp hIn, (h i).mp hTest⟩, fun j hj hp => ?_⟩
    have hNot := hBefore j hj
    rw [(h j).mpr hp] at hNot
    cases hNot

theorem unique (h : FirstOf n p r) (h' : FirstOf n p r') : r = r' := by
  cases r with
  | none =>
    cases r' with
    | none => rfl
    | some j => exact absurd h'.1.2 (h j h'.1.1)
  | some i =>
    cases r' with
    | none => exact absurd h.1.2 (h' i h.1.1)
    | some j =>
      obtain hLt | rfl | hLt := Nat.lt_trichotomy i j
      · exact absurd h.1.2 (h'.2 i hLt)
      · rfl
      · exact absurd h'.1.2 (h.2 j hLt)

theorem congr (hSame : ∀ i < n, p i ↔ q i) : FirstOf n p r ↔ FirstOf n q r := by
  cases r with
  | none => exact forall₂_congr fun i hi => not_congr (hSame i hi)
  | some i =>
    constructor
    · rintro ⟨⟨hi, hp⟩, hBefore⟩
      exact ⟨⟨hi, (hSame i hi).mp hp⟩,
        fun j hj hq => hBefore j hj ((hSame j (Nat.lt_trans hj hi)).mpr hq)⟩
    · rintro ⟨⟨hi, hq⟩, hBefore⟩
      exact ⟨⟨hi, (hSame i hi).mpr hq⟩,
        fun j hj hp => hBefore j hj ((hSame j (Nat.lt_trans hj hi)).mp hp)⟩

/-- The first with a further property is the first if and only if that has the further property. -/
theorem and_iff {further : Nat → Prop} (h : FirstOf n (fun i => p i ∧ further i) r) :
    FirstOf n p r ↔ ∀ i, FirstOf n p (some i) → further i := by
  constructor
  · intro hFirst i hi
    obtain rfl := hFirst.unique hi
    exact h.1.2.2
  · intro hAll
    classical
    have hThere := @of_find? n p (fun i => decide (p i)) fun i => decide_eq_true_iff
    cases hFind : (List.range n).find? fun i => decide (p i) with
    | none =>
      rw [hFind] at hThere
      have hNone : r = none := h.unique fun i hi hp => hThere i hi hp.1
      rw [hNone]
      exact hThere
    | some i =>
      rw [hFind] at hThere
      have hIs : r = some i :=
        h.unique ⟨⟨hThere.1.1, hThere.1.2, hAll i hThere⟩,
          fun j hj hp => hThere.2 j hj hp.1⟩
      rw [hIs]
      exact hThere

end FirstOf

/-! ## Transactions and requests that fit -/

/-- What the strings and the number of a request have in common with those of a transaction. -/
structure SameCall (m : Mem) (tid : Tid) (tp : Txi) : Prop where
  call_id : m.read tid.call_id = m.read tp.id.call_id
  from_tag : m.read tid.from_tag = m.read tp.id.from_tag
  cseq : tid.cseq.val = tp.id.cseq

/-- Whether a transaction was answered with a 2xx. -/
def Txi.Answered2xx (tp : Txi) : Prop := 200 ≤ tp.last_status_code ∧ tp.last_status_code < 300

instance (tp : Txi) : Decidable tp.Answered2xx := inferInstanceAs (Decidable (_ ∧ _))

/-- An INVITE an ACK is for: that of a 2xx has its local tag, another has its branch. -/
structure AckFits (m : Mem) (tid : Tid) (to_tag : Option Str) (tp : Txi) : Prop where
  active : tp.active = true
  role : tp.role = .UAS
  invite : tp.isInvite = true
  state : tp.state = .COMPLETED ∨ tp.state = .ACCEPTED
  call : SameCall m tid tp
  tag : tp.Answered2xx → ∃ s, to_tag = some s ∧ m.read s = m.read tp.cache.to_tag
  branch : ¬ tp.Answered2xx → m.read tid.vbranch = m.read tp.id.branch

/-- An unanswered INVITE of the branch of a CANCEL. -/
structure CancelBranch (m : Mem) (tid : Tid) (tp : Txi) : Prop where
  active : tp.active = true
  role : tp.role = .UAS
  invite : tp.isInvite = true
  unanswered : tp.state ≠ .COMPLETED ∧ tp.state ≠ .ACCEPTED ∧ tp.state ≠ .CONFIRMED ∧
    tp.state ≠ .TERMINATED
  call : SameCall m tid tp
  branch : m.read tid.vbranch = m.read tp.id.branch

/-- An INVITE a CANCEL is for: one whose application is told of it. -/
def CancelFits (m : Mem) (tid : Tid) (tp : Txi) : Prop :=
  CancelBranch m tid tp ∧ tp.uas_callbacks.cancel = true

/-- The hash an ACK is looked up by among the answered INVITEs of a kind. -/
def ackLookup (m : Mem) (tid : Tid) (to_tag : Option Str) (tp : Txi) : UInt32 :=
  if tp.Answered2xx then
    (to_tag.map fun s => dialogTidHash m tid.call_id tid.from_tag s tid.cseq.val .ACK).getD 0
  else tid.hash

/-- The To header of a request. -/
def Msg.toHdr (msg : Msg) : Option NameAddr :=
  (msg.parseHdrsGet [.TO] true msg.hdrs.length).bind fun hdrs => hdrs.head?.bind Msg.nameaddrOf

def Msg.toTag (m : Mem) (msg : Msg) : Option Str := msg.toHdr.bind (·.getParam m (bytes "tag"))

theorem Str.eq_iff {m : Mem} {a b : Str} : Str.eq m a b = true ↔ m.read a = m.read b := by
  rw [Str.eq, Bool.and_eq_true, beq_iff_eq, beq_iff_eq, and_iff_right_iff_imp]
  intro hRead
  rw [← Mem.length_read m a, hRead, Mem.length_read]

/-- What a transaction id is made of. -/
theorem Msg.getTid_hash {m : Mem} {msg : Msg} {tid : Tid} (h : msg.getTid m = some tid) :
    tid.hash = tidHash m tid.call_id tid.from_tag tid.vbranch tid.cseq := by
  simp only [getTid] at h
  split at h
  · split at h
    · simp only [Option.bind_eq_bind, Option.bind_eq_some_iff] at h
      obtain ⟨vbranch, -, from_tag, -, hTid⟩ := h
      obtain rfl := Option.some.inj hTid
      rfl
    · contradiction
  · contradiction

section

variable {m : Mem} {tid : Tid} {tp : Txi}

theorem SameCall.methodHash (h : SameCall m tid tp)
    (hBranch : m.read tid.vbranch = m.read tp.id.branch) {method : Method}
    (hMethod : tid.cseq.method = method) (hKnown : method ≠ .generic) :
    tidHash m tid.call_id tid.from_tag tid.vbranch tid.cseq = uasMethodHash m tp method := by
  simp only [uasMethodHash, tidHash, h.call_id, h.from_tag, hBranch, h.cseq, hMethod, if_neg hKnown]

theorem SameCall.dialogHash (h : SameCall m tid tp) {s : Str}
    (hTag : m.read s = m.read tp.cache.to_tag) :
    dialogTidHash m tid.call_id tid.from_tag s tid.cseq.val .ACK =
      dialogTidHash m tp.id.call_id tp.id.from_tag tp.cache.to_tag tp.id.cseq .ACK := by
  simp only [dialogTidHash, Microsippy.dialogHash, h.call_id, h.from_tag, hTag, h.cseq]

/-- What a server transaction keeps of its request: hashes of the strings as they are. -/
structure Txi.Knows (m : Mem) (tp : Txi) : Prop where
  ok : tp.UasOk
  tagged : m.read tp.cache.to_tag ≠ []
  hashes : m.read tp.id.from_tag ≠ [] →
    tp.cache.uas.ack_hash = uasAckHash m tp tp.last_status_code.toNat ∧
      tp.cache.uas.cancel_hash = tp.cancelHash m

/-- The dialog hash of an ACK. -/
def ackDialogHash (m : Mem) (tid : Tid) (to_tag : Option Str) : UInt32 :=
  match to_tag with
  | some tag =>
    if tag.l ≠ 0 then dialogTidHash m tid.call_id tid.from_tag tag tid.cseq.val .ACK else 0
  | none => 0

theorem ackHash_2xx (hMethod : tp.cache.method_type = .INVITE) (h : tp.Answered2xx) :
    uasAckHash m tp tp.last_status_code.toNat =
      dialogTidHash m tp.id.call_id tp.id.from_tag tp.cache.to_tag tp.id.cseq .ACK := by
  obtain ⟨hLow, hHigh⟩ := h
  rw [UInt16.le_iff_toNat_le] at hLow
  rw [UInt16.lt_iff_toNat_lt] at hHigh
  have hBelow : tp.last_status_code.toNat < 300 := hHigh
  rw [uasAckHash, if_neg, if_pos hBelow]
  rintro (hBelow | hNot)
  · exact absurd hLow (Nat.not_le_of_lt hBelow)
  · exact hNot hMethod

theorem ackHash_other (hMethod : tp.cache.method_type = .INVITE)
    (hFinal : 300 ≤ tp.last_status_code) :
    uasAckHash m tp tp.last_status_code.toNat = uasMethodHash m tp .ACK := by
  rw [UInt16.le_iff_toNat_le] at hFinal
  have hHigh : 300 ≤ tp.last_status_code.toNat := hFinal
  rw [uasAckHash, if_neg, if_neg (Nat.not_lt_of_le hHigh)]
  rintro (hBelow | hNot)
  · omega
  · exact hNot hMethod

/-- An INVITE in `COMPLETED` or `ACCEPTED` was answered with a final response. -/
theorem Txi.UasOk.final (h : tp.UasOk) (hInvite : tp.isInvite = true)
    (hState : tp.state = .COMPLETED ∨ tp.state = .ACCEPTED) (hOther : ¬ tp.Answered2xx) :
    300 ≤ tp.last_status_code := by
  have hTimed := h.timed
  rw [Ctl.UasTimed] at hTimed
  obtain hIs | hIs := hState
  · rw [hIs] at hTimed
    obtain ⟨-, -, hFinal⟩ | ⟨-, hNot, -⟩ := hTimed
    · exact hFinal
    · exact absurd (beq_iff_eq.mp hInvite) hNot
  · rw [hIs] at hTimed
    exact absurd hTimed.2 hOther

/-- What `usipy_sip_tm_uas_ack_matches_tx` checks. -/
theorem ackMatches_spec {to_tag : Option Str} {dialog_hash : UInt32} :
    uasAckMatchesTx m tid to_tag dialog_hash tp = true ↔
      (tid.cseq.method = .ACK ∧ tp.role = .UAS ∧ tp.isInvite = true ∧
        (tp.state = .COMPLETED ∨ tp.state = .ACCEPTED) ∧ tp.cache.uas.ack_hash ≠ 0) ∧
      SameCall m tid tp ∧
      (tp.Answered2xx → dialog_hash = tp.cache.uas.ack_hash ∧
        ∃ tag, to_tag = some tag ∧ tag.l ≠ 0 ∧ m.read tag = m.read tp.cache.to_tag) ∧
      (¬ tp.Answered2xx → tid.hash = tp.cache.uas.ack_hash ∧
        m.read tid.vbranch = m.read tp.id.branch) := by
  have hCall : SameCall m tid tp ↔ (m.read tid.call_id = m.read tp.id.call_id ∧
      m.read tid.from_tag = m.read tp.id.from_tag) ∧ tid.cseq.val = tp.id.cseq :=
    ⟨fun h => ⟨⟨h.call_id, h.from_tag⟩, h.cseq⟩, fun h => ⟨h.1.1, h.1.2, h.2⟩⟩
  unfold uasAckMatchesTx
  split
  · rename_i hGate
    constructor
    · rintro ⟨⟩
    · rintro ⟨⟨hAck, hRole, hInvite, hState, hSet⟩, -⟩
      obtain hNot | hNot | hNot | ⟨hFirst, hSecond⟩ | hNone := hGate
      · exact absurd hAck hNot
      · exact absurd hRole hNot
      · rw [hInvite] at hNot
        cases hNot
      · exact absurd hState (not_or.mpr ⟨hFirst, hSecond⟩)
      · exact absurd hNone hSet
  · rename_i hGate
    simp only [not_or, not_and_or, Decidable.not_not, Bool.not_eq_true',
      Bool.not_eq_false] at hGate
    rw [and_iff_right hGate, hCall, Txi.Answered2xx]
    simp only [Bool.and_eq_true, Str.eq_iff, beq_iff_eq]
    refine and_congr_right fun _ => ?_
    split
    · rename_i h2xx
      rw [imp_iff_right h2xx, and_iff_left fun hNot => absurd h2xx hNot]
      cases to_tag with
      | none => simp
      | some tag =>
        simp only [Bool.and_eq_true, beq_iff_eq, decide_eq_true_eq, Str.eq_iff, Option.some.injEq,
          exists_eq_left']
        rw [and_assoc, and_left_comm]
    · rename_i hOther
      rw [imp_iff_right hOther, and_iff_right fun h2xx => absurd h2xx hOther]
      simp [Str.eq_iff]

theorem ackMatches_iff {to_tag : Option Str} (hAck : tid.cseq.method = .ACK)
    (hHash : tid.hash = tidHash m tid.call_id tid.from_tag tid.vbranch tid.cseq)
    (hTag : m.read tid.from_tag ≠ []) (hKnows : tp.role = .UAS → tp.Knows m) :
    (tp.active && uasAckMatchesTx m tid to_tag (ackDialogHash m tid to_tag) tp) = true ↔
      AckFits m tid to_tag tp ∧ ackLookup m tid to_tag tp ≠ 0 := by
  rw [Bool.and_eq_true, ackMatches_spec]
  constructor
  · rintro ⟨hActive, ⟨-, hRole, hInvite, hState, hSet⟩, hCall, h2xx, hOther⟩
    refine ⟨⟨hActive, hRole, hInvite, hState, hCall, fun h => ?_, fun h => (hOther h).2⟩, ?_⟩
    · obtain ⟨-, tag, hTag, -, hSame⟩ := h2xx h
      exact ⟨tag, hTag, hSame⟩
    · rw [ackLookup]
      split
      · rename_i h
        obtain ⟨hIs, tag, rfl, hSome, -⟩ := h2xx h
        rw [ackDialogHash, if_pos hSome] at hIs
        rw [Option.map_some, Option.getD_some, hIs]
        exact hSet
      · rename_i h
        rw [(hOther h).1]
        exact hSet
  · rintro ⟨hFits, hSet⟩
    obtain ⟨hOk, hTagged, hHashes⟩ := hKnows hFits.role
    have hMethod : tp.cache.method_type = .INVITE := hOk.same.trans (beq_iff_eq.mp hFits.invite)
    obtain ⟨hAckHash, -⟩ := hHashes (hFits.call.from_tag ▸ hTag)
    have hIs : tp.cache.uas.ack_hash = ackLookup m tid to_tag tp := by
      rw [hAckHash, ackLookup]
      split
      · rename_i h2xx
        obtain ⟨tag, rfl, hSame⟩ := hFits.tag h2xx
        rw [ackHash_2xx hMethod h2xx, Option.map_some, Option.getD_some,
          hFits.call.dialogHash hSame]
      · rename_i hOther
        rw [ackHash_other hMethod (hOk.final hFits.invite hFits.state hOther), hHash,
          hFits.call.methodHash (hFits.branch hOther) hAck (by decide)]
    refine ⟨hFits.active, ⟨hAck, hFits.role, hFits.invite, hFits.state, hIs ▸ hSet⟩,
      hFits.call, fun h2xx => ?_, fun hOther => ⟨?_, hFits.branch hOther⟩⟩
    · obtain ⟨tag, rfl, hSame⟩ := hFits.tag h2xx
      have hSome : tag.l ≠ 0 := by
        rw [← Mem.length_read m, hSame, Ne, List.length_eq_zero_iff]
        exact hTagged
      refine ⟨?_, tag, rfl, hSome, hSame⟩
      rw [hIs, ackDialogHash, ackLookup, if_pos h2xx]
      exact if_pos hSome
    · rw [hIs, ackLookup, if_neg hOther]

theorem cancelMatches_iff (hCancel : tid.cseq.method = .CANCEL)
    (hHash : tid.hash = tidHash m tid.call_id tid.from_tag tid.vbranch tid.cseq)
    (hTag : m.read tid.from_tag ≠ []) (hKnows : tp.role = .UAS → tp.Knows m) :
    (tp.active && uasCancelMatchesTx m tid tp) = true ↔
      CancelBranch m tid tp ∧ (tp.uas_callbacks.cancel = true ∨ tid.hash = 0) := by
  have hLookup : CancelBranch m tid tp → (tid.hash = tp.cache.uas.cancel_hash ↔
      tp.uas_callbacks.cancel = true ∨ tid.hash = 0) := by
    intro hFits
    obtain ⟨hOk, -, hHashes⟩ := hKnows hFits.role
    obtain ⟨-, hIs⟩ := hHashes (hFits.call.from_tag ▸ hTag)
    have hMethod : tp.cache.method_type = .INVITE := hOk.same.trans (beq_iff_eq.mp hFits.invite)
    have hSame := hHash.trans (hFits.call.methodHash hFits.branch hCancel (by decide))
    rw [hIs, Txi.cancelHash]
    cases hTold : tp.uas_callbacks.cancel with
    | true => simp [hMethod, hSame]
    | false => simp
  rw [uasCancelMatchesTx]
  simp only [Bool.and_eq_true, Str.eq_iff, beq_iff_eq, Bool.not_eq_eq_eq_not, Bool.not_true,
    List.contains_eq_mem, List.mem_cons, List.not_mem_nil, or_false, decide_eq_false_iff_not,
    not_or]
  constructor
  · rintro ⟨hActive, ⟨⟨⟨⟨⟨⟨hRole, hInvite⟩, hIs⟩, hOpen⟩, hCallId⟩, hFrom⟩, hBranch⟩, hSeq⟩
    have hFits : CancelBranch m tid tp :=
      ⟨hActive, hRole, hInvite, hOpen, ⟨hCallId, hFrom, hSeq⟩, hBranch⟩
    exact ⟨hFits, (hLookup hFits).mp hIs⟩
  · rintro ⟨hFits, hEither⟩
    exact ⟨hFits.active, ⟨⟨⟨⟨⟨⟨hFits.role, hFits.invite⟩, (hLookup hFits).mpr hEither⟩,
      hFits.unanswered⟩, hFits.call.call_id⟩, hFits.call.from_tag⟩, hFits.branch⟩,
      hFits.call.cseq⟩

end

/-! ## Matching in reachable states -/

namespace Tm

/-- The first INVITE an ACK is for. -/
def AckFor (tm : Tm) (msg : Msg) (tid : Tid) : Option Nat → Prop :=
  FirstOf tm.max_transactions fun i => AckFits tm.mem tid (msg.toTag tm.mem) (tm.tx i)

/-- The first INVITE a CANCEL is for. -/
def CancelFor (tm : Tm) (tid : Tid) : Option Nat → Prop :=
  FirstOf tm.max_transactions fun i => CancelFits tm.mem tid (tm.tx i)

/-- The first INVITE of the branch of a CANCEL. -/
def CancelBranchOf (tm : Tm) (tid : Tid) : Option Nat → Prop :=
  FirstOf tm.max_transactions fun i => CancelBranch tm.mem tid (tm.tx i)

theorem Wired.mem {tm : Tm} (h : tm.Wired) (i : Nat) : (tm.tx i).scratch.mem tm.mem = tm.mem := by
  rw [Heap.mem, h i]
  funext k
  simp only [Mem.put]
  split
  · rename_i hk
    rw [hk]
    rfl
  · rfl

theorem findUasAck_eq (tm : Tm) (msg : Msg) (tid : Tid) :
    findUasAckTransaction tm msg tid = msg.toHdr.bind fun _ =>
      (List.range tm.max_transactions).find? fun i => (tm.tx i).active &&
        uasAckMatchesTx tm.mem tid (msg.toTag tm.mem)
          (ackDialogHash tm.mem tid (msg.toTag tm.mem)) (tm.tx i) := by
  rw [findUasAckTransaction, Msg.toTag, Msg.toHdr]
  cases msg.parseHdrsGet [.TO] true msg.hdrs.length with
  | none => rfl
  | some hdrs =>
    simp only [Option.bind_eq_bind, Option.bind_some]
    cases hdrs.head?.bind Msg.nameaddrOf <;> rfl

end Tm

namespace World

variable {ok : World → Label → Prop} {w : World} {msg : Msg} {tid : Tid}

theorem ReachableBy.knows (h : ReachableBy ok w) (hTags : w.tm.LaysTags) {i : Nat}
    (hRole : (w.tm.tx i).role = .UAS) : (w.tm.tx i).Knows w.tm.mem := by
  obtain ⟨hWired, hGrounded, hHashed⟩ := h.keeps
  have hBase := hGrounded i hRole
  have hLaid := hHashed hTags i hRole
  have hSome : ∀ s : Str, w.tm.mem.read s ≠ [] ↔ s.l ≠ 0 := fun s => by
    rw [← Mem.length_read w.tm.mem s, Ne, Ne, List.length_eq_zero_iff]
  constructor
  · exact h.slots.1 i hRole
  · exact (hSome _).mpr hLaid.tagged
  · intro hTag
    obtain hNone | ⟨m, hAck, hCancel⟩ := hLaid.hashes
    · exact absurd hNone ((hSome _).mp hTag)
    · have hSame := hBase.sameNames hLaid.to_tag (Std.Refl.refl _) rfl (Std.Refl.refl _) m w.tm.mem
      rw [hWired.mem] at hSame
      exact ⟨hAck.trans (hSame.ackHash _).symm, hCancel.trans (hSame.cancelHash rfl).symm⟩

theorem ReachableBy.ackFor_iff (h : ReachableBy ok w) (hTags : w.tm.LaysTags)
    (hTid : msg.getTid w.tm.mem = some tid) (hAck : tid.cseq.method = .ACK) :
    w.tm.AckFor msg tid (findUasAckTransaction w.tm msg tid) ↔
      ∀ i, w.tm.AckFor msg tid (some i) → msg.toHdr.isSome ∧
        ackLookup w.tm.mem tid (msg.toTag w.tm.mem) (w.tm.tx i) ≠ 0 := by
  have hTag : w.tm.mem.read tid.from_tag ≠ [] := by
    rw [Ne, ← List.length_eq_zero_iff, Mem.length_read]
    exact (Msg.getTid_l_ne hTid).2
  rw [Tm.findUasAck_eq]
  apply FirstOf.and_iff
  cases hTo : msg.toHdr with
  | none =>
    rintro i - ⟨-, hSome, -⟩
    cases hSome
  | some top =>
    rw [Option.bind_some]
    apply FirstOf.of_find?
    intro i
    rw [ackMatches_iff hAck (Msg.getTid_hash hTid) hTag fun hRole => h.knows hTags hRole,
      Option.isSome_some, and_iff_right rfl]

theorem ReachableBy.cancelFor_iff (h : ReachableBy ok w) (hTags : w.tm.LaysTags)
    (hTid : msg.getTid w.tm.mem = some tid) (hCancel : tid.cseq.method = .CANCEL) :
    w.tm.CancelFor tid (findUasCancelTransaction w.tm tid) ↔
      (tid.hash = 0 → ∀ i, w.tm.CancelBranchOf tid (some i) →
        (w.tm.tx i).uas_callbacks.cancel = true) := by
  have hTag : w.tm.mem.read tid.from_tag ≠ [] := by
    rw [Ne, ← List.length_eq_zero_iff, Mem.length_read]
    exact (Msg.getTid_l_ne hTid).2
  have hFound : FirstOf w.tm.max_transactions (fun i => CancelBranch w.tm.mem tid (w.tm.tx i) ∧
      ((w.tm.tx i).uas_callbacks.cancel = true ∨ tid.hash = 0))
      (findUasCancelTransaction w.tm tid) :=
    FirstOf.of_find? fun i =>
      cancelMatches_iff hCancel (Msg.getTid_hash hTid) hTag fun hRole => h.knows hTags hRole
  cases Decidable.em (tid.hash = 0) with
  | inl hZero =>
    have hFirst : w.tm.CancelBranchOf tid (findUasCancelTransaction w.tm tid) :=
      (FirstOf.congr fun i _ => and_iff_left (Or.inr hZero)).mp hFound
    rw [imp_iff_right hZero]
    constructor
    · intro hFits i hi
      obtain hIs := hFirst.unique hi
      rw [hIs] at hFits
      exact hFits.1.2.2
    · intro hAll
      cases hResult : findUasCancelTransaction w.tm tid with
      | none =>
        rw [hResult] at hFirst
        exact fun i hi hFits => hFirst i hi hFits.1
      | some i =>
        rw [hResult] at hFirst
        exact ⟨⟨hFirst.1.1, hFirst.1.2, hAll i hFirst⟩, fun j hj hFits => hFirst.2 j hj hFits.1⟩
  | inr hSet =>
    have hFits : w.tm.CancelFor tid (findUasCancelTransaction w.tm tid) :=
      (FirstOf.congr fun i _ => and_congr_right fun _ => or_iff_left hSet).mp hFound
    exact ⟨fun _ hZero => absurd hZero hSet, fun _ => hFits⟩

/-- A request of a method in the transaction of an INVITE, with a To header. -/
def requestIn (method : Method) (cseq : UInt32) (to_ : String) : Msg :=
  let via := Str.lit (bytes "SIP/2.0/UDP h;branch=z")
  let call_id := Str.lit (bytes "c")
  { sline := .req method (Str.lit (bytes "sip:b@h"))
    hdrs := [
      { hf_type := .VIA, value := via
        parsed := some (.via { params := [⟨⟨via.src, 14, 6⟩, ⟨via.src, 21, 1⟩⟩] }) },
      nameaddrHdr .FROM "<sip:a@h>;tag=1", nameaddrHdr .TO to_,
      { hf_type := .CALLID, value := call_id, parsed := some (.generic call_id) },
      { hf_type := .CSEQ, value := Str.lit (bytes "CSeq")
        parsed := some (.cseq { val := cseq, method }) }] }

/-- An INVITE answered with a 200. -/
def inviteOk : List Label :=
  [.call (.newUasTr (receivedFrom (requestIn .INVITE 1 "<sip:b@h>"))),
    .call (.sendUasResponse 0 { status := resOk })]

/-- An INVITE without a cancel callback, whose CANCEL has a hash of 0. -/
def inviteZero : List Label :=
  [.call (.newUasTr (receivedFrom (requestIn .INVITE 3979966827 "<sip:b@h>")))]

end World

end Microsippy
