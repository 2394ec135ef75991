import Microsippy.Decimal
import Microsippy.ToTags
import Microsippy.Retransmits

/-! # The tag of the responses of a server transaction

Every response but a 100 has the same To value, and when it is the right one.
-/

namespace Microsippy

set_option autoImplicit false

/-! ## The To line -/

/-- The value of the To line of a response. -/
def uasToValue (c : Cache) (code : Nat) : List Chunk :=
  .put 0 c.uas.to_ :: if uasIncludeToTag c code then [.text ";tag=", .put 0 c.to_tag] else []

def uasToText (m : Mem) (c : Cache) (code : Nat) : Bytes := Chunk.outAll m.read (uasToValue c code)

/-- A line of a message with the To value, and the line's end before it. -/
def toLine (value : Bytes) : Bytes := [13, 10] ++ (bytes "To: " ++ (value ++ [13, 10]))

theorem uasBuildResponse_to (tm : Tm) (tp : Txi) (rpp : UasResponseParams) :
    ∃ pre post, uasBuildResponse tm tp rpp =
      pre ++ ((.put 0 crlf :: headerLine .TO (uasToValue tp.cache rpp.status.code.1)) ++ post) := by
  refine ⟨[.text "SIP/2.0 ", .put 0 (Str.lit (dec rpp.status.code.1 ++ bytes " ")),
    .put 0 rpp.status.reason_phrase, .put 0 crlf] ++
      (tp.cache.uas.vias.map fun v => headerLine .VIA [.put 0 v]).flatten ++
      [.put 0 (Str.lit (hdrDb .FROM).name), .text ": ", .put 0 tp.cache.uas.from_], ?_, ?_⟩
  rotate_left
  · simp only [uasBuildResponse, headerLine, uasToValue, List.append_assoc, List.cons_append,
      List.nil_append]
    rfl

theorem outAll_toLine (rd : Str → Bytes) (value : List Chunk) (hLit : ∀ b, rd (Str.lit b) = b) :
    Chunk.outAll rd (.put 0 crlf :: headerLine .TO value) = toLine (Chunk.outAll rd value) := by
  have hName : (hdrDb .TO).name ++ bytes ": " = bytes "To: " := by decide
  simp only [headerLine, Chunk.outAll_cons, Chunk.outAll_append, Chunk.outAll_nil, Chunk.out,
    Chunk.text, crlf, hLit, List.append_nil, List.append_assoc]
  rw [toLine, ← hName, List.append_assoc]

/-- A response that is stored, as it was built on the heap rolled back. -/
theorem uasAnswerSlot_built {tm : Tm} {tp tp' : Txi} {rpp : UasResponseParams} {u : Unit}
    (hRun : (uasAnswerSlot rpp tm).run tp = some (.ok u, tp')) :
    ∃ hp, tp.scratch.KeptBelow hp ∧
      (Heap.build tm.mem (uasBuildResponse tm tp rpp)).run hp = some (.ok tp'.raw, tp'.scratch) := by
  obtain ⟨_, tp₁, hStore, hRun⟩ := Op.bind_ok.mp hRun
  obtain ⟨_, _, hDone, hRun⟩ := Op.bind_ok.mp hRun
  obtain ⟨rfl, rfl⟩ := Op.get_ok.mp hDone
  obtain ⟨_, tp₂, hSet, hRun⟩ := Op.bind_ok.mp hRun
  obtain ⟨c, -, -, rfl⟩ := setCtl_some hSet
  obtain rfl := Op.modify_ok.mp hRun
  obtain ⟨_, _, hDone, hStore⟩ := Op.bind_ok.mp hStore
  obtain ⟨rfl, rfl⟩ := Op.get_ok.mp hDone
  obtain ⟨_, t, hBack, hStore⟩ := Op.bind_ok.mp hStore
  obtain ⟨raw, t₁, hBuild, hStore⟩ := Op.bind_ok.mp hStore
  obtain rfl := Op.modify_ok.mp hStore
  have hKept : tp.Kept {} t := kept_rollbackTo _ _ _ _ hBack
  obtain ⟨hp, hText, rfl⟩ := onScratch_ok.mp hBuild
  exact ⟨t.scratch, hKept.heap, hText⟩

/-- The To line of a response that is stored. -/
theorem sendUasResponse_to {tm tm' : Tm} {i : Nat} {rpp : UasResponseParams} (hWired : tm.Wired)
    (hWired' : tm'.Wired) (hTop : (tm.tx i).scratch.base ≤ (tm.tx i).scratch.alen)
    (hTo : (tm.tx i).scratch.Holds (tm.tx i).cache.uas.to_)
    (hTag : (tm.tx i).scratch.Holds (tm.tx i).cache.to_tag)
    (hRun : (sendUasResponse i rpp).run tm = some (.ok (), tm')) :
    ∃ y z, tm'.mem.read (tm'.tx i).raw =
      y ++ (toLine (uasToText tm.mem (tm.tx i).cache rpp.status.code.1) ++ z) := by
  rw [sendUasResponse_eq] at hRun
  obtain ⟨_, _, hMay, hRun⟩ := Op.bind_ok.mp hRun
  obtain ⟨rfl, -⟩ := uasMayAnswer_ok hMay
  obtain ⟨tp', hPart, rfl⟩ := onSlot_ok.mp hRun
  obtain ⟨hp, hKept, hBuild⟩ := uasAnswerSlot_built hPart
  obtain ⟨pre, post, hChunks⟩ := uasBuildResponse_to tm (tm.tx i) rpp
  rw [hChunks] at hBuild
  have hStrs : ∀ c ∈ Chunk.put 0 crlf :: headerLine .TO (uasToValue (tm.tx i).cache rpp.status.code.1),
      ∀ s ∈ c.strs, (tm.tx i).scratch.Holds s := by
    have hLit : ∀ b, (tm.tx i).scratch.Holds (Str.lit b) := fun b => Or.inl ⟨b, rfl⟩
    rintro c hc s hs
    simp only [headerLine, uasToValue, List.mem_cons, List.mem_append, List.not_mem_nil, or_false] at hc
    split at hc
    · simp only [List.mem_cons, List.not_mem_nil, or_false] at hc
      rcases hc with rfl | ((rfl | rfl) | (rfl | rfl | rfl)) | rfl <;>
        obtain rfl := List.mem_singleton.mp hs
      · exact hLit _
      · exact hLit _
      · exact hLit _
      · exact hTo
      · exact hLit _
      · exact hTag
      · exact hLit _
    · simp only [List.not_mem_nil, or_false] at hc
      rcases hc with rfl | ((rfl | rfl) | rfl) | rfl <;> obtain rfl := List.mem_singleton.mp hs
      · exact hLit _
      · exact hLit _
      · exact hLit _
      · exact hTo
      · exact hLit _
  have hTop' := hKept.top hTop
  have hStays : ∀ c ∈ Chunk.put 0 crlf :: headerLine .TO (uasToValue (tm.tx i).cache rpp.status.code.1),
      ∀ s ∈ c.strs, hp.Settled s := by
    rintro c hc s hs k hSrc hSlot
    obtain ⟨b, hLit⟩ | ⟨j, -, -, hLe⟩ := hKept.holds (hStrs c hc s hs)
    · rw [hLit] at hSrc
      cases hSrc
    · exact Nat.le_trans hLe hTop'
  obtain ⟨y, z, hRead⟩ := Heap.build_part hStays hBuild
  obtain ⟨off, l, hView⟩ := Heap.build_view hBuild
  refine ⟨y, z, ?_⟩
  have hMem := hWired'.mem i
  rw [Tm.set_same] at hMem ⊢
  have hSame : Chunk.outAll (hp.mem tm.mem).read
      (.put 0 crlf :: headerLine .TO (uasToValue (tm.tx i).cache rpp.status.code.1)) =
        toLine (uasToText tm.mem (tm.tx i).cache rpp.status.code.1) := by
    rw [uasToText, ← outAll_toLine tm.mem.read _ (Mem.read_lit tm.mem)]
    apply Chunk.outAll_congr
    rintro c hc s hs
    rw [hKept.read hTop (hStrs c hc s hs) tm.mem tm.mem, hWired.mem]
  rw [← hSame, ← hRead, ← hMem]
  exact Heap.read_view_any (Or.inr ⟨off, l, hView⟩) _ _

/-! ## What the To line is made from -/

theorem Heap.Settled.laid_own {hp : Heap} {s : Str} (h : hp.Settled s)
    (hOwn : ∀ i, s.src = .scratch i → hp.slot = some i) : hp.Laid s := by
  cases hSrc : s.src with
  | lit b => exact Or.inl ⟨b, hSrc⟩
  | scratch k => exact Or.inr ⟨k, hSrc, hOwn k hSrc, h k hSrc (hOwn k hSrc)⟩

/-- The To value a slot keeps and its local tag, which no response is built over. -/
structure Txi.ToHeld (to_ tag : Bytes) (tp : Txi) : Prop where
  top : tp.scratch.base ≤ tp.scratch.alen
  holdsValue : tp.scratch.Holds tp.cache.uas.to_
  holdsTag : tp.scratch.Holds tp.cache.to_tag
  tagged : tp.cache.to_tag.l ≠ 0
  readValue : ∀ m, (tp.scratch.mem m).read tp.cache.uas.to_ = to_
  readTag : ∀ m, (tp.scratch.mem m).read tp.cache.to_tag = tag

theorem Txi.ToHeld.lasts {to_ tag : Bytes} {allow : Allow} {tp tp' : Txi} (h : tp.ToHeld to_ tag)
    (hLasts : tp.Lasts allow tp') : tp'.ToHeld to_ tag := by
  have hBelow := hLasts.heap
  obtain ⟨hash, hCache⟩ := hLasts.cache
  constructor
  · exact hBelow.top h.top
  · rw [hCache]
    exact hBelow.holds h.holdsValue
  · rw [hCache]
    exact hBelow.holds h.holdsTag
  · rw [hCache]
    exact h.tagged
  · intro m
    rw [hCache]
    exact (hBelow.read h.top h.holdsValue m m).trans (h.readValue m)
  · intro m
    rw [hCache]
    exact (hBelow.read h.top h.holdsTag m m).trans (h.readTag m)

theorem allocSlot_policy {tm tm' : Tm} {i : Nat} (hRun : allocSlot.run tm = some (.ok i, tm')) :
    tm'.id_policy = tm.id_policy := by
  rcases allocSlot_cases tm with ⟨k, -, -, hIs⟩ | ⟨-, ⟨v, -, hIs⟩ | ⟨-, hIs⟩⟩
  · rw [hIs] at hRun
    obtain ⟨-, rfl⟩ := Prod.mk.inj (Option.some.inj hRun)
    rfl
  · rw [hIs] at hRun
    obtain ⟨-, rfl⟩ := Prod.mk.inj (Option.some.inj hRun)
    exact Tm.drop_policy tm v
  · rw [hIs] at hRun
    cases hRun

theorem Tm.LaysTags.same {tm tm' : Tm} (h : tm.LaysTags) (hPolicy : tm'.id_policy = tm.id_policy) :
    tm'.LaysTags := fun policy hIs => h policy (hPolicy ▸ hIs)

theorem Tm.TagsMeet.same {P : Bytes → Prop} {tm tm' : Tm} (h : tm.TagsMeet P)
    (hPolicy : tm'.id_policy = tm.id_policy) : tm'.TagsMeet P := by
  rw [TagsMeet, hPolicy]
  exact h

/-- What a slot that is made for a request keeps of its To value, and the tag it gives. -/
theorem newUasTr_toHeld {tm tm' : Tm} {tpp : NewUasTrParams} {i : Nat} {f t : MsgHdr}
    {nf nt : NameAddr} {P : Bytes → Prop} (hOk : tm.UasOk) (hWired : tm.Wired)
    (hTop : tpp.request.top .FROM = some f) (hFrom : f.WireNameaddr nf)
    (hTopTo : tpp.request.top .TO = some t) (hTo : t.WireNameaddr nt) (hTags : tm.LaysTags)
    (hMeet : tm.TagsMeet P) (hRun : (newUasTr tpp).run tm = some (.ok i, tm')) :
    ∃ tag, P tag ∧ (tm'.tx i).ToHeld (toText nt) tag := by
  obtain ⟨hKept, -⟩ := newUasTr_kept hWired hTop hFrom hTopTo hTo hRun
  obtain ⟨tm₁, tid, tp, hMakes⟩ := newUasTr_makes hOk hRun
  have hPolicy := allocSlot_policy hMakes.alloc
  have hLays := hTags.same hPolicy
  have hScratch := hMakes.activated.scratch
  have hTag := hMakes.activated.to_tag
  have hBase : (tm'.tx i).scratch.base = (tm'.tx i).scratch.alen := hScratch ▸ hMakes.filled.base
  have hHolds : (tm'.tx i).scratch.Holds (tm'.tx i).cache.to_tag := by
    rw [hScratch, hTag]
    exact (hMakes.filled.to_tag hLays).holds hMakes.filled.base
  refine ⟨((tm'.tx i).scratch.mem tm₁.mem).read (tm'.tx i).cache.to_tag, ?_, ?_⟩
  · rw [hScratch, hTag]
    exact hMakes.tag hLays P (hMeet.same hPolicy) tm₁.mem
  · constructor
    · exact Nat.le_of_eq hBase
    · exact (hKept.settledTo.laid_own hKept.ownTo).holds hBase
    · exact hHolds
    · rw [hTag]
      exact hMakes.filled.tagged
    · exact hKept.readTo
    · intro m
      exact (Std.Refl.refl (r := Heap.KeptBelow) _).read (Nat.le_of_eq hBase) hHolds _ _

/-! ## The text of the To line -/

theorem texts_untagged (params : List TvPair) : Params.texts (fun _ => .zero) (untagged params) =
    (Params.texts (fun _ => .zero) params).filter fun q => q.1 != bytes "tag" := by
  rw [untagged, Params.texts, Params.texts, List.filter_map]
  congr 1
  apply List.filter_congr
  rintro pp -
  rw [Function.comp_apply, readPair]
  cases hTag : Mem.read (fun _ => .zero) pp.token == bytes "tag" with
  | false => rw [Bool.and_false, bne, hTag]
  | true =>
    have hLength : pp.token.l = (bytes "tag").length := by
      rw [← Mem.length_read (fun _ => .zero) pp.token, beq_iff_eq.mp hTag]
    rw [bne, hTag, beq_iff_eq.mpr hLength]
    rfl

theorem toText_eq (nt : NameAddr) : toText nt = NameAddr.textOut { nt.texts fun _ => .zero with
    params := (nt.texts fun _ => .zero).params.filter fun q => q.1 != bytes "tag" } := by
  rw [toText, NameAddr.displayText, NameAddr.paramsText_eq, NameAddr.textOut, NameAddr.texts,
    texts_untagged]
  simp only [NameAddr.read_eq_nil fun _ => .zero]

/-- The To value of a response but a 100, as the text of the request's and the tag. -/
theorem uasToText_eq {tm : Tm} {i : Nat} {nt : NameAddr} {tag : Bytes} {code : Nat} (hWired : tm.Wired)
    (h : (tm.tx i).ToHeld (toText nt) tag) (hCode : code ≠ 100) :
    uasToText tm.mem (tm.tx i).cache code = NameAddr.taggedText (nt.texts fun _ => .zero) tag := by
  have hValue := h.readValue tm.mem
  have hTag := h.readTag tm.mem
  rw [hWired.mem] at hValue hTag
  have hIn : uasIncludeToTag (tm.tx i).cache code = true := by
    rw [uasIncludeToTag, Bool.and_eq_true, decide_eq_true_eq, decide_eq_true_eq]
    exact ⟨hCode, h.tagged⟩
  rw [uasToText, uasToValue, if_pos hIn]
  simp only [Chunk.outAll_cons, Chunk.outAll_nil, Chunk.out, Chunk.text, hValue, hTag,
    Mem.read_lit, List.append_nil]
  rw [NameAddr.taggedText, toText_eq]

/-- The tags a manager gives without an id policy. -/
theorem Tm.tags_default {tm : Tm} (hNone : tm.id_policy = none) :
    tm.LaysTags ∧ tm.TagsMeet Token := by
  constructor
  · intro policy hIs
    rw [hNone] at hIs
    cases hIs
  · rw [TagsMeet, hNone]
    intro i
    have hDigit : ∀ c, IsDigit c → isToken c = true := forall_byte (by decide +kernel)
    constructor
    · exact List.append_ne_nil_of_right_ne_nil _ (by decide)
    · rintro c hc
      rw [List.mem_append, List.mem_append] at hc
      rcases hc with (hc | hc) | hc
      · obtain rfl := List.mem_singleton.mp hc
        decide +kernel
      · exact hDigit c (mem_dec hc)
      · revert c
        decide +kernel

/-! ## The tag of every response -/

/-- The tag a server transaction gives. -/
def Tm.localTag (tm : Tm) (i : Nat) : Bytes := tm.mem.read (tm.tx i).cache.to_tag

/-- The To value of the responses of a server transaction but a 100. -/
def Tm.toValue (tm : Tm) (i : Nat) : Bytes := uasToText tm.mem (tm.tx i).cache 200

namespace World

variable {w : World} {tpp : NewUasTrParams} {i : Nat} {f t : MsgHdr} {nf nt : NameAddr}

/-- What a slot keeps that was made for a request. -/
theorem MadeFor.toHeld {P : Bytes → Prop} (hMade : w.MadeFor tpp i)
    (hTop : tpp.request.top .FROM = some f) (hFrom : f.WireNameaddr nf)
    (hTopTo : tpp.request.top .TO = some t) (hTo : t.WireNameaddr nt) (hTags : w.tm.LaysTags)
    (hMeet : w.tm.TagsMeet P) :
    (w.tm.tx i).role = .UAS ∧ ∃ tag, P tag ∧ (w.tm.tx i).ToHeld (toText nt) tag := by
  obtain ⟨tm, tm₁, hSince⟩ := hMade.since
  obtain ⟨tm₀, tid, tp, hMakes⟩ := newUasTr_makes hSince.ok hSince.run
  have hRole := hMakes.activated.role
  obtain ⟨tag, hTag, hHeld⟩ := newUasTr_toHeld hSince.ok hSince.wired hTop hFrom hTopTo hTo
    (hTags.same hSince.policy) (hMeet.same hSince.policy) hSince.run
  exact ⟨hSince.role.trans hRole, tag, hTag, hHeld.lasts (hSince.lasts hRole)⟩

/-- Every response but a 100 that is accepted for the transaction in slot `i` has this To value. -/
def ToIs (w : World) (i : Nat) (value : Bytes) : Prop :=
  ∀ (w' : World) (rpp : UasResponseParams) (tm' : Tm), Transition.Run step (fun _ _ => True) w w' →
    (w'.tm.tx i).born = (w.tm.tx i).born → rpp.status.code.1 ≠ 100 →
      (sendUasResponse i rpp).run w'.tm = some (.ok (), tm') →
        ∃ y z, tm'.mem.read (tm'.tx i).raw = y ++ (toLine value ++ z)

theorem toIs_tagged {tag : Bytes} (hReachable : w.Reachable) (hRole : (w.tm.tx i).role = .UAS)
    (hHeld : (w.tm.tx i).ToHeld (toText nt) tag) :
    w.ToIs i (NameAddr.taggedText (nt.texts fun _ => .zero) tag) := by
  rintro w' rpp tm' hRun hBorn hCode hSend
  obtain ⟨hLasts, -⟩ := run_named hReachable hRun hRole hBorn
  have hReachable' := hReachable.run hRun
  have hHeld' := hHeld.lasts hLasts
  have hWired := hReachable'.keeps.1
  have hMoves : Moves {} w'.tm tm' :=
    (acts_sendUasResponse _ _ _ _ _ hReachable'.slots.1 hSend).moves
  obtain ⟨y, z, hRaw⟩ := sendUasResponse_to hWired (hMoves.wired hWired) hHeld'.top hHeld'.holdsValue
    hHeld'.holdsTag hSend
  rw [uasToText_eq hWired hHeld' hCode] at hRaw
  exact ⟨y, z, hRaw⟩

/-- The To value of the responses, and what it is. -/
theorem MadeFor.tagged (hMade : w.MadeFor tpp i) (hReachable : w.Reachable)
    (hTop : tpp.request.top .FROM = some f) (hFrom : f.WireNameaddr nf)
    (hTopTo : tpp.request.top .TO = some t) (hTo : t.WireNameaddr nt) (hTags : w.tm.LaysTags)
    (hMeet : w.tm.TagsMeet Token) :
    Token (w.tm.localTag i) ∧ w.ToIs i (w.tm.toValue i) ∧
      w.tm.toValue i = NameAddr.taggedText (nt.texts fun _ => .zero) (w.tm.localTag i) := by
  obtain ⟨hRole, tag, hToken, hHeld⟩ := hMade.toHeld hTop hFrom hTopTo hTo hTags hMeet
  have hWired := hReachable.keeps.1
  have hTag : w.tm.localTag i = tag := by
    rw [Tm.localTag, ← hWired.mem i]
    exact hHeld.readTag w.tm.mem
  have hValue : w.tm.toValue i = NameAddr.taggedText (nt.texts fun _ => .zero) tag :=
    uasToText_eq hWired hHeld (by decide)
  rw [hTag, hValue]
  exact ⟨hToken, toIs_tagged hReachable hRole hHeld, rfl⟩

/-- The BYE of the dialog that an INVITE answered with a 200 has made. -/
def byeIn : NewUasTrParams := receivedFrom (requestIn .BYE 2 "<sip:b@h>;tag=t0-1")

end World

end Microsippy
