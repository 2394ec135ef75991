import Microsippy.DialogUris
import Microsippy.FromWire
import Microsippy.HdrLookup

/-! # More headers than the constructor has room for

`usipy_sip_tm_uas_cache_request` collects the Via and Record-Route headers of a request in arrays of
32 and asserts that they fit. Nothing bounds their number before.
-/

namespace Microsippy

set_option autoImplicit false

namespace Heap

theorem total_reserve (len : Nat) (align_start : Bool) : Op.Total (reserve len align_start) := by
  intro hp
  rw [run_reserve]
  generalize (if align_start then alignedSize hp.alen else hp.alen) = off
  dsimp only
  split <;> exact Option.some_ne_none _

theorem total_append (m : Mem) (src : Str) : Op.Total (append m src) := by
  rw [append]
  split
  · exact .pure _
  · exact .bind (total_reserve _ _) fun _ => .bind (.modify _) fun _ => .bind .get fun _ => .pure _

theorem total_build (m : Mem) (cb : List Chunk) : Op.Total (build m cb) := by
  refine .bind .get fun hp => .bind (.require _ _) fun _ => ?_
  exact .bind (.modify _) fun _ => .bind (.orElse _ _) fun _ => .bind (total_reserve _ _) fun _ =>
    .bind .get fun _ => .pure _

end Heap

theorem total_onScratch {α : Type} {x : HeapM α} (hx : Op.Total x) (e : TmError) :
    Op.Total (onScratch e x) :=
  (hx.zoom _ _).failWith e

theorem total_appendAll (m : Mem) (srcs : List Str) : Op.Total (appendAll m srcs) := by
  induction srcs with
  | nil => exact .pure _
  | cons s rest ih => exact .bind (Heap.total_append m s) fun _ => .bind ih fun _ => .pure _

theorem total_uasCopyHdrs (m : Mem) (hdrs : List MsgHdr) : Op.Total (uasCopyHdrs m hdrs) := by
  cases hdrs with
  | nil => exact .pure _
  | cons h hs =>
    exact .bind (total_onScratch (Heap.total_reserve _ _) _) fun _ =>
      total_onScratch (total_appendAll m _) _

theorem total_uasCopyNameaddrWithoutParam (m : Mem) (nap : NameAddr) (skip : Bytes) :
    Op.Total (uasCopyNameaddrWithoutParam m nap skip) :=
  .bind .get fun _ => .bind (total_onScratch (Heap.total_build m _) _) fun _ =>
    .bind (total_onScratch (Heap.total_reserve _ _) _) fun _ => .pure _

/-! ## The headers of a request -/

/-- How many headers of a type a message has. -/
def WireMsg.count (rp : WireMsg) (t : Hf) : Nat := (rp.hdrs.filter (·.hf_type == t)).length

/-- More Via or Record-Route headers than `usipy_sip_tm_uas_cache_request` has room for. -/
def WireMsg.Crowded (rp : WireMsg) : Prop :=
  uasMaxHdrs < rp.count .VIA ∨ uasMaxHdrs < rp.count .RECORDROUTE

/-- The headers `usipy_sip_tm_uas_cache_request` has parsed before it counts any. -/
def uasCacheMask (reqp : Msg) : List Hf :=
  [Hf.FROM, .TO, .CSEQ] ++ if reqp.present .CONTACT then [.CONTACT] else []

theorem WireMsg.ParsedTo.count {m : Mem} {rp : WireMsg} {msg : Msg} (h : rp.ParsedTo m msg) (t : Hf) :
    (msg.hdrs.filter (·.hf_type == t)).length = rp.count t := by
  obtain ⟨-, hHdrs⟩ := h
  rw [WireMsg.count]
  generalize rp.hdrs = hdrs at hHdrs ⊢
  generalize msg.hdrs = hdrs' at hHdrs ⊢
  induction hHdrs with
  | nil => rfl
  | cons hHdr _ ih =>
    rw [List.filter_cons, List.filter_cons, hHdr.hf_type]
    split
    · rw [List.length_cons, List.length_cons, ih]
    · exact ih

theorem WireMsg.ParsedTo.parse_of_mem {m : Mem} {rp : WireMsg} {msg : Msg} (h : rp.ParsedTo m msg)
    {g : MsgHdr} (hMem : g ∈ msg.hdrs) {p : ParsedHdr} (hParsed : g.parsed = some p) :
    ∃ parse stack value hp hp', (hdrDb g.hf_type).parse = some parse ∧
      (HdrParse.run stack m value parse).run hp = some (.ok p, hp') := by
  obtain ⟨-, hHdrs⟩ := h
  generalize rp.hdrs = hdrs at hHdrs
  generalize msg.hdrs = hdrs' at hHdrs hMem
  induction hHdrs with
  | nil => cases hMem
  | @cons hdr g' _ _ hHdr _ ih =>
    cases hMem with
    | head =>
      obtain ⟨parse, stack, hp, hp', hParse, hRun⟩ := hHdr.parsed p hParsed
      exact ⟨parse, stack, hdr.value, hp, hp', hHdr.hf_type ▸ hParse, hRun⟩
    | tail _ hMem => exact ih hMem

theorem WireMsg.ParsedTo.nameaddr {m : Mem} {rp : WireMsg} {msg : Msg} (h : rp.ParsedTo m msg)
    {g : MsgHdr} (hMem : g ∈ msg.hdrs) (hType : (hdrDb g.hf_type).parse = some .nameaddr)
    (hParsed : g.parsed.isSome) : ∃ n, Msg.nameaddrOf g = some n := by
  obtain ⟨p, hIs⟩ := Option.isSome_iff_exists.mp hParsed
  obtain ⟨parse, stack, value, hp, hp', hParse, hRun⟩ := h.parse_of_mem hMem hIs
  obtain rfl := Option.some.inj (hType.symm.trans hParse)
  obtain ⟨n, hp₁, -, hRun⟩ := Op.bind_ok.mp hRun
  obtain ⟨rfl, -⟩ := Op.pure_ok.mp hRun
  exact ⟨n, by rw [Msg.nameaddrOf, hIs]⟩

theorem WireMsg.ParsedTo.cseq {m : Mem} {rp : WireMsg} {msg : Msg} (h : rp.ParsedTo m msg)
    {g : MsgHdr} (hMem : g ∈ msg.hdrs) (hType : (hdrDb g.hf_type).parse = some .cseq)
    (hParsed : g.parsed.isSome) : ∃ c, g.parsed = some (.cseq c) := by
  obtain ⟨p, hIs⟩ := Option.isSome_iff_exists.mp hParsed
  obtain ⟨parse, stack, value, hp, hp', hParse, hRun⟩ := h.parse_of_mem hMem hIs
  obtain rfl := Option.some.inj (hType.symm.trans hParse)
  obtain ⟨c, hp₁, -, hRun⟩ := Op.bind_ok.mp hRun
  obtain ⟨rfl, -⟩ := Op.pure_ok.mp hRun
  exact ⟨c, hIs⟩

namespace Msg

theorem mem_of_top {msg : Msg} {t : Hf} {g : MsgHdr} (h : msg.top t = some g) :
    g ∈ msg.hdrs ∧ g.hf_type = t :=
  ⟨List.mem_of_find?_eq_some h, beq_iff_eq.mp (List.find?_some (p := fun g : MsgHdr => g.hf_type == t) h)⟩

/-- After the parsing of all headers of some types, the first of each is there and parsed. -/
theorem top_of_parseHdrs {msg : Msg} {mask : List Hf} (h : msg.parseHdrs mask false = true) {t : Hf}
    (ht : t ∈ mask) : ∃ g, msg.top t = some g ∧ g.parsed.isSome := by
  rw [parseHdrs, Bool.and_eq_true, List.all_eq_true, List.all_eq_true] at h
  obtain ⟨hPresent, hParsed⟩ := h
  obtain ⟨g₀, hMem₀, hType₀⟩ := List.any_eq_true.mp (hPresent t ht)
  cases hTop : msg.top t with
  | none => exact absurd hType₀ (List.find?_eq_none.mp hTop g₀ hMem₀)
  | some g =>
    obtain ⟨hMem, hType⟩ := mem_of_top hTop
    refine ⟨g, rfl, hParsed g ?_⟩
    rw [matched, if_neg Bool.false_ne_true, List.mem_filter]
    exact ⟨hMem, by simpa [hType] using ht⟩

end Msg

theorem parseHdrList_parsedTo (m : Mem) (mask : List Hf) (hdrs : List WireHdr) (hp : Heap) :
    List.Forall₂ (WireHdr.ParsedTo m) hdrs (parseHdrList m mask hdrs hp) := by
  induction hdrs generalizing hp with
  | nil => exact .nil
  | cons h hs ih =>
    have hNone : h.ParsedTo m { hf_type := h.hf_type, value := h.value } := ⟨rfl, rfl, nofun⟩
    rw [parseHdrList]
    split
    · exact .cons hNone (ih hp)
    · rename_i parse hParse
      split
      · exact .cons hNone (ih hp)
      · rename_i p hp' hDid
        refine .cons ⟨rfl, rfl, fun q hq => ?_⟩ (ih hp')
        obtain rfl := Option.some.inj hq
        split at hParse
        · rw [Heap.did] at hDid
          split at hDid
          · obtain ⟨rfl, rfl⟩ := Prod.mk.inj (Option.some.inj hDid)
            exact ⟨parse, Str.null, hp, _, hParse, ‹_›⟩
          · cases hDid
        · cases hParse

theorem WireMsg.withParsed_parsedTo {m : Mem} {mask : List Hf} {rp : WireMsg} {msg : Msg}
    (h : rp.withParsed m mask = some msg) : rp.ParsedTo m msg := by
  obtain ⟨sline, hSline, rfl⟩ := Option.map_eq_some_iff.mp h
  exact ⟨hSline, parseHdrList_parsedTo _ _ _ _⟩

/-! ## The assertion -/

/-- A request whose headers parse stops the program just when it has too many of them. -/
theorem uasCacheRequest_stops_iff {m₀ m : Mem} {rp : WireMsg} {reqp : Msg}
    (hParsed : rp.ParsedTo m₀ reqp) (hMask : reqp.parseHdrs (uasCacheMask reqp) false = true)
    (ruri : Str) (tid : Tid) (tp : Txi) :
    (uasCacheRequest m reqp ruri tid).run tp = none ↔ rp.Crowded := by
  have hCaps : (reqp.hdrs.filter (·.hf_type == .VIA)).length ≤ uasMaxHdrs ∧
      (reqp.hdrs.filter (·.hf_type == .RECORDROUTE)).length ≤ uasMaxHdrs ↔ ¬ rp.Crowded := by
    rw [hParsed.count, hParsed.count, WireMsg.Crowded, not_or, Nat.not_lt, Nat.not_lt]
  obtain ⟨f, hFrom, hFromParsed⟩ := Msg.top_of_parseHdrs hMask (t := .FROM) (by simp [uasCacheMask])
  obtain ⟨t, hTo, hToParsed⟩ := Msg.top_of_parseHdrs hMask (t := .TO) (by simp [uasCacheMask])
  obtain ⟨q, hCseq, hCseqParsed⟩ :=
    Msg.top_of_parseHdrs hMask (t := .CSEQ) (by simp [uasCacheMask])
  obtain ⟨hFromMem, hFromType⟩ := Msg.mem_of_top hFrom
  obtain ⟨hToMem, hToType⟩ := Msg.mem_of_top hTo
  obtain ⟨hCseqMem, hCseqType⟩ := Msg.mem_of_top hCseq
  obtain ⟨nf, hNf⟩ := hParsed.nameaddr hFromMem (by rw [hFromType]; rfl) hFromParsed
  obtain ⟨nt, hNt⟩ := hParsed.nameaddr hToMem (by rw [hToType]; rfl) hToParsed
  obtain ⟨c, hC⟩ := hParsed.cseq hCseqMem (by rw [hCseqType]; rfl) hCseqParsed
  rw [uasCacheRequest, Op.run_bind, Op.run_require, ← uasCacheMask, hMask, if_pos rfl,
    Op.andThen_ok, Op.run_bind, Op.run_assert]
  constructor
  · intro hNone
    by_contra hFits
    rw [if_pos (hCaps.mpr hFits), Op.andThen_ok, hFrom, hTo, hCseq, Op.run_bind,
      Op.run_demand_some, Op.andThen_ok, hNf, Op.run_bind, Op.run_demand_some, Op.andThen_ok,
      Op.run_bind, Op.run_demand_some, Op.andThen_ok, hNt, Op.run_bind, Op.run_demand_some,
      Op.andThen_ok, Option.bind_some, hC, Op.run_bind, Op.run_demand_some, Op.andThen_ok] at hNone
    -- nothing after the headers are found asserts
    refine absurd hNone (Op.Total.bind (.orElse _ _) (fun via => ?_) tp)
    refine .bind (total_onScratch (Heap.total_append _ _) _) fun _ => .bind (.modify _) fun _ => ?_
    refine .bind (total_uasCopyNameaddrWithoutParam _ _ _) fun _ => .bind (.modify _) fun _ => ?_
    refine .bind (total_onScratch (Heap.total_append _ _) _) fun _ => .bind (.modify _) fun _ => ?_
    refine .bind (.orElse _ _) fun _ => .bind (.modify _) fun _ => ?_
    refine .bind (.orElse _ _) fun _ => .bind (.modify _) fun _ => ?_
    refine .bind (total_uasCopyHdrs _ _) fun _ => .bind (.modify _) fun _ => ?_
    refine .bind (.orElse _ _) fun _ => .bind (.modify _) fun _ => ?_
    refine .bind (total_uasCopyHdrs _ _) fun _ => .bind (.modify _) fun _ => ?_
    refine .bind ?_ fun _ => .bind (.modify _) fun _ => .bind (.orElse _ _) fun _ => .modify _
    split
    · exact total_onScratch (Heap.total_append _ _) _
    · exact .pure _
  · intro hCrowded
    rw [if_neg (fun h => hCaps.mp h hCrowded), Op.andThen_none]

/-- A request is kept or refused without an assertion failing, and refused when it has too many
headers, just when it does not have too many or one of the others does not parse. -/
theorem uasCacheRequest_fits_iff {m₀ m : Mem} {rp : WireMsg} {reqp : Msg}
    (hParsed : rp.ParsedTo m₀ reqp) (ruri : Str) (tid : Tid) (tp : Txi) :
    (∃ r tp', (uasCacheRequest m reqp ruri tid).run tp = some (r, tp') ∧
        (rp.Crowded → ∃ e, r = .error e)) ↔
      ¬ rp.Crowded ∨ reqp.parseHdrs (uasCacheMask reqp) false = false := by
  cases hMask : reqp.parseHdrs (uasCacheMask reqp) false with
  | false =>
    refine ⟨fun _ => Or.inr rfl, fun _ => ⟨.error .NOSPC, tp, ?_, fun _ => ⟨_, rfl⟩⟩⟩
    rw [uasCacheRequest, Op.run_bind, Op.run_require, ← uasCacheMask, hMask]
    rfl
  | true =>
    have hStops := @uasCacheRequest_stops_iff m₀ m rp reqp hParsed hMask ruri tid tp
    cases hResult : (uasCacheRequest m reqp ruri tid).run tp with
    | none =>
      have hCrowded := hStops.mp hResult
      constructor
      · rintro ⟨_, _, h, -⟩
        cases h
      · rintro (h | h)
        · exact absurd hCrowded h
        · cases h
    | some r =>
      have hFits : ¬ rp.Crowded := by
        intro h
        rw [hStops.mpr h] at hResult
        cases hResult
      exact ⟨fun _ => Or.inl hFits, fun _ => ⟨r.1, r.2, rfl, fun h => absurd h hFits⟩⟩

/-- A BYE whose Via value ends in `n` commas, with a body that makes room for its headers. -/
def byeWithCommas (n : Nat) : Bytes :=
  bytes "BYE sip:a SIP/2.0\r\nVia:SIP/2.0/UDP h;branch=z" ++ List.replicate n (ch ',') ++
    bytes "\r\nFrom:<sip:a@h>;tag=1\r\nTo:<sip:b@h>\r\nCall-ID:c\r\nCSeq:1 BYE\r\n\r\n" ++
    List.replicate 3000 (ch 'x')

/-- The headers a BYE is looked at for. -/
def byeMask : List Hf := [.CSEQ, .CALLID, .VIA, .FROM, .TO]

/-- The message a buffer makes, with the headers parsed that `usipy_sip_tm_new_uas_tr` asks for. -/
def receivedBye (n : Nat) : Option (WireMsg × Msg) :=
  (ctorFromwire FastParser.plainShift (fun _ => .zero) (byeWithCommas n)).bind fun rp =>
    (rp.withParsed (fun _ => .zero) byeMask).map fun msg => (rp, msg)

theorem receivedBye_parsedTo {n : Nat} {rp : WireMsg} {msg : Msg} (h : receivedBye n = some (rp, msg)) :
    ctorFromwire FastParser.plainShift (fun _ => .zero) (byeWithCommas n) = some rp ∧
      rp.ParsedTo (fun _ => .zero) msg := by
  obtain ⟨rp', hWire, hMsg⟩ := Option.bind_eq_some_iff.mp h
  obtain ⟨msg', hParsed, hIs⟩ := Option.map_eq_some_iff.mp hMsg
  obtain ⟨rfl, rfl⟩ := Prod.mk.inj hIs
  exact ⟨hWire, WireMsg.withParsed_parsedTo hParsed⟩

theorem uasCacheRequest_fits_bye : ∃ (rp : WireMsg) (reqp : Msg),
    ctorFromwire FastParser.plainShift (fun _ => .zero) (byeWithCommas 0) = some rp ∧
      ∀ ruri tid tp, ∃ r tp', (uasCacheRequest (fun _ => .zero) reqp ruri tid).run tp =
        some (r, tp') ∧ (rp.Crowded → ∃ e, r = .error e) := by
  obtain ⟨⟨rp, msg⟩, hBye, hTest⟩ := (Option.any_eq_true _ _).mp
    (by decide +kernel : (receivedBye 0).any (fun r =>
      r.1.count .VIA == 1 && r.1.count .RECORDROUTE == 0) = true)
  simp only [Bool.and_eq_true, beq_iff_eq] at hTest
  obtain ⟨hWire, hParsed⟩ := receivedBye_parsedTo hBye
  have hFits : ¬ rp.Crowded := by
    rw [WireMsg.Crowded, hTest.1, hTest.2]
    decide
  exact ⟨rp, msg, hWire, fun ruri tid tp =>
    (uasCacheRequest_fits_iff hParsed ruri tid tp).mpr (Or.inl hFits)⟩

/-- With 33 Via headers the BYE is taken from the wire, and the constructor stops at the assertion. -/
theorem newUasTr_stops_crowded : ∃ (rp : WireMsg) (reqp : Msg) (tm : Tm),
    ctorFromwire FastParser.plainShift (fun _ => .zero) (byeWithCommas 32) = some rp ∧
      rp.ParsedTo (fun _ => .zero) reqp ∧ rp.count .VIA = 33 ∧ Tm.ctor oneSlot = some tm ∧
      (newUasTr (receivedFrom reqp)).run tm = none ∧
      ∀ ruri tid tp, (uasCacheRequest tm.mem reqp ruri tid).run tp = none := by
  obtain ⟨⟨rp, msg⟩, hBye, hTest⟩ := (Option.any_eq_true _ _).mp
    (by decide +kernel : (receivedBye 32).any (fun r =>
      r.1.count .VIA == 33 && r.2.parseHdrs (uasCacheMask r.2) false &&
        (Tm.ctor oneSlot).any fun tm => ((newUasTr (receivedFrom r.2)).run tm).isNone) = true)
  simp only [Bool.and_eq_true, beq_iff_eq] at hTest
  obtain ⟨⟨hCount, hMask⟩, hStops⟩ := hTest
  obtain ⟨tm, hCtor, hNone⟩ := (Option.any_eq_true _ _).mp hStops
  obtain ⟨hWire, hParsed⟩ := receivedBye_parsedTo hBye
  have hCrowded : rp.Crowded := by
    rw [WireMsg.Crowded, hCount]
    exact Or.inl (by decide)
  exact ⟨rp, msg, tm, hWire, hParsed, hCount, hCtor, Option.isNone_iff_eq_none.mp hNone,
    fun ruri tid tp => (uasCacheRequest_stops_iff hParsed hMask ruri tid tp).mpr hCrowded⟩

end Microsippy
