import Microsippy.MethodLookup
import Microsippy.Scratch
import Microsippy.SlineText
import Microsippy.Written

/-! # Requests read back

What `usipy_sip_msg_build_cb` writes of a request, and that `usipy_sip_msg_ctor_fromwire` finds in it
what was put in.
-/

namespace Microsippy

set_option autoImplicit false

/-! ## The start line -/

variable {T : Shift} {m : Mem}

/-- The start line of a request is read back where its Request-URI is. -/
theorem slineParse_request {x : Str} {u : Bytes} {method : Method} (hMethod : method ≠ .generic)
    (hRead : m.read x = method.name ++ ch ' ' :: (u ++ ch ' ' :: bytes "SIP/2.0")) (hSome : u ≠ [])
    (hSpace : ch ' ' ∉ u) : ∃ ruri, m.read ruri = u ∧ ∀ {up : Uri} {hp hp' : Heap},
      (Uri.parse m ruri).run hp = some (.ok up, hp') →
        Heap.did (slineParse m x) hp = some (.req method ruri, hp') := by
  have hName : ch ' ' ∉ method.name ∧ method.name ≠ [] ∧ verifySipVersion method.name = false ∧
      methodDbLookup method.name = method := by
    revert hMethod
    cases method <;> decide +kernel
  obtain ⟨hPlain, hNamed, hOther, hLookup⟩ := hName
  obtain ⟨s1, s2, hSplit, h1, h2⟩ := Str.split_of_append hRead hPlain
  obtain ⟨s3, s4, hRest, h3, h4⟩ := Str.split_of_append h2 hSpace
  have hSome1 : s1.l ≠ 0 := by
    rw [← Mem.length_read m s1, h1]
    exact fun hNone => hNamed (List.eq_nil_of_length_eq_zero hNone)
  have hSome2 : s2.l ≠ 0 := by
    rw [← Mem.length_read m s2, h2]
    simp
  have hSome3 : s3.l ≠ 0 := by
    rw [← Mem.length_read m s3, h3]
    exact fun hNone => hSome (List.eq_nil_of_length_eq_zero hNone)
  have hVersion : s4.l ≠ 0 ∧ verifySipVersion (m.read s4) = true := by
    rw [← Mem.length_read m s4, h4]
    decide +kernel
  refine ⟨s3, h3, fun {up hp hp'} hUri => ?_⟩
  rw [did_some, slineParse, hSplit]
  simp only [Op.run_bind, Op.run_orElse_some, Op.andThen_ok,
    Op.run_require_of hp (And.intro hSome1 hSome2), hRest, Op.run_require_of hp hSome3, h1, hOther,
    Bool.false_eq_true, if_false, if_pos hVersion, hUri, hLookup, Op.run_pure]

/-! ## The text -/

/-- A header by its type and its value as it is written. -/
def BuildHdr.typed (m : Mem) (h : BuildHdr) : Hf × Bytes :=
  (h.hf_type, Chunk.outAll m.read (h.value.build 2))

namespace BuildReq

/-- The headers in the order they are written: the last Content-Length after all others. -/
def written (r : BuildReq) : List BuildHdr :=
  (r.hdrs.filter fun h => !((hdrDb h.hf_type).cantype == .CONTENTLENGTH)) ++
    (r.hdrs.filter fun h => (hdrDb h.hf_type).cantype == .CONTENTLENGTH).getLast?.toList

/-- The Request-URI as it is written. -/
def uriOut (m : Mem) (r : BuildReq) : Bytes := Chunk.outAll m.read r.ruri.build

def slineOut (m : Mem) (r : BuildReq) : Bytes :=
  r.method.name ++ ch ' ' :: (r.uriOut m ++ ch ' ' :: bytes "SIP/2.0")

/-- A request in parts. -/
def partsOut (m : Mem) (r : BuildReq) : SplitMsg where
  sline := r.slineOut m
  hdrs := (r.written.map (BuildHdr.typed m)).map hdrText
  body := m.read r.body

theorem outAll_hdr (m : Mem) (h : BuildHdr) :
    Chunk.outAll m.read h.build = hdrText (h.typed m) ++ [13, 10] := by
  rw [BuildHdr.build, hdrText, BuildHdr.typed]
  simp only [Chunk.outAll_append, Chunk.outAll_cons, Chunk.outAll_nil, Chunk.out, Chunk.text, Mem.read_lit,
    List.nil_append, List.append_nil, List.append_assoc, crlf]

theorem outAll_sline (m : Mem) (r : BuildReq) :
    Chunk.outAll m.read r.buildSline = r.slineOut m ++ [13, 10] := by
  have hName : cstr (r.method.name ++ bytes " ") = r.method.name ++ [ch ' '] := by
    cases r.method <;> decide +kernel
  have hEnd : cstr (bytes " SIP/2.0" ++ [13, 10]) = ch ' ' :: bytes "SIP/2.0" ++ [13, 10] := by
    decide +kernel
  rw [buildSline, slineOut, uriOut]
  simp only [Chunk.outAll_append, Chunk.outAll_cons, Chunk.outAll_nil, Chunk.out, Mem.read_lit,
    List.map_cons, List.map_nil, List.flatten_cons, List.flatten_nil, hName, hEnd, List.nil_append,
    List.append_nil, List.append_assoc, List.cons_append]

/-- A request is written as its parts put together. -/
theorem outAll_build (m : Mem) (r : BuildReq) :
    Chunk.outAll m.read r.build = (r.partsOut m).join := by
  have hHdrs : ∀ hs : List BuildHdr, Chunk.outAll m.read (hs.map BuildHdr.build).flatten =
      ((hs.map (BuildHdr.typed m)).map hdrText).flatMap (· ++ [13, 10]) := by
    intro hs
    induction hs with
    | nil => rfl
    | cons h hs ih =>
      rw [List.map_cons, List.flatten_cons, Chunk.outAll_append, ih, outAll_hdr, List.map_cons,
        List.map_cons, List.flatMap_cons]
  have hBody : Chunk.outAll m.read (if r.body.l ≠ 0 then [.put 0 r.body] else []) = m.read r.body := by
    split
    · rw [Chunk.outAll_cons, Chunk.outAll_nil, Chunk.out, List.append_nil]
    · rename_i hNone
      rw [Chunk.outAll_nil]
      exact (List.eq_nil_of_length_eq_zero ((Mem.length_read m _).trans (not_not.mp hNone))).symm
  rw [build]
  cases hLast : (r.hdrs.filter fun h => (hdrDb h.hf_type).cantype == .CONTENTLENGTH).getLast? with
  | none =>
    simp only [Chunk.outAll_append, outAll_sline, hHdrs, hBody, hLast, SplitMsg.join, partsOut, written,
      Option.toList_none, List.append_nil, Chunk.outAll_cons, Chunk.outAll_nil, Chunk.out, crlf,
      Mem.read_lit, List.append_assoc]
  | some h =>
    simp only [Chunk.outAll_append, outAll_sline, outAll_hdr, hHdrs, hBody, hLast, SplitMsg.join, partsOut,
      written, Option.toList_some, List.map_append, List.flatMap_append, List.map_singleton,
      List.flatMap_singleton, Chunk.outAll_cons, Chunk.outAll_nil, Chunk.out, crlf, Mem.read_lit,
      List.append_assoc, List.append_nil]

/-! ## Read back -/

/-- A request that can be written: a method with a name, a Request-URI the parser takes from one line,
and headers that are read back as they are written. -/
structure Plain (m : Mem) (r : BuildReq) (t : UriText) : Prop where
  method : r.method ≠ .generic
  uri : Uri.parseText (r.uriOut m) = some t
  space : ch ' ' ∉ r.uriOut m
  line : OneLine (r.uriOut m)
  some : r.written ≠ []
  hdrs : ∀ h ∈ r.hdrs, Writable (h.typed m)

theorem mem_written {r : BuildReq} {h : BuildHdr} (hIn : h ∈ r.written) : h ∈ r.hdrs := by
  rw [written, List.mem_append, Option.mem_toList] at hIn
  obtain hIn | hIn := hIn
  · exact List.mem_of_mem_filter hIn
  · exact List.mem_of_mem_filter (List.mem_of_getLast? hIn)

theorem oneLine_slineOut {r : BuildReq} {t : UriText} (h : r.Plain m t) : OneLine (r.slineOut m) := by
  have hName : ∀ c ∈ r.method.name ++ [ch ' '], c ≠ 13 := by
    cases r.method <;> decide +kernel
  have hIs : r.slineOut m = (r.method.name ++ [ch ' ']) ++ (r.uriOut m ++ bytes " SIP/2.0") := by
    rw [slineOut, List.append_assoc]
    rfl
  intro k
  by_contra hAt
  rw [hIs, Bool.not_eq_false] at hAt
  obtain ⟨j, -, hHere⟩ := crlfAt_plain hName hAt
  obtain hIn | hOut := Nat.lt_or_ge j (r.uriOut m).length
  · have hThere : crlfAt (r.uriOut m) j = true := by
      rw [crlfAt, getD_append_left hIn] at hHere
      have hNext : j + 1 < (r.uriOut m).length := by
        by_contra hEnd
        rw [decide_eq_true_eq, show j + 1 = (r.uriOut m).length + 0 by omega, getD_append_right] at hHere
        exact absurd hHere.2 (show ¬ ch ' ' = ch '\n' by decide)
      rw [getD_append_left hNext] at hHere
      exact hHere
    rw [h.line j] at hThere
    cases hThere
  · obtain ⟨i, rfl⟩ := Nat.exists_eq_add_of_le hOut
    rw [crlfAt_append_right, ← List.append_nil (bytes " SIP/2.0")] at hHere
    obtain ⟨_, -, hNone⟩ := crlfAt_plain (by decide +kernel) hHere
    exact absurd (crlfAt_lt hNone) (Nat.not_lt_zero _)

/-- The Request-URI is parsed with the room it takes. -/
theorem parse_uri {b u : Bytes} {ruri : Str} {t : UriText} (hRead : m.read ruri = u)
    (hUri : Uri.parseText u = Option.some t) (hRoom : t.room ≤ msgHeapSize b.length) :
    ∃ up hp, (Uri.parse m ruri).run (FromWire.start b).rp.heap = Option.some (.ok up, hp) ∧
      hp.alen = t.room := by
  have hDid := did_uriParse m b ruri
  rw [hRead, hUri, Option.map_some, Option.filter_some, if_pos (decide_eq_true hRoom),
    Option.map_eq_some_iff] at hDid
  obtain ⟨⟨up, hp⟩, hDid, hAlen⟩ := hDid
  exact ⟨up, hp, did_some.mp hDid, hAlen⟩

/-- A request in parts is read back. -/
theorem ctorFromwire_parts {m' : Mem} {r : BuildReq} {t : UriText} (h : r.Plain m t)
    (hRoom : t.room + sizeofHdr * r.written.length ≤
      msgHeapSize (r.partsOut m).join.length) (hLen : (r.partsOut m).join.length ≤ 2 ^ 31) :
    ∃ rp ruri, ctorFromwire T m' (r.partsOut m).join = Option.some rp ∧
      rp.sline = Option.some (.req r.method ruri) ∧ m'.read ruri = r.uriOut m ∧
        rp.typed m' = r.written.map (BuildHdr.typed m) ∧ m'.read rp.body = m.read r.body := by
  have hSome : r.uriOut m ≠ [] := by
    intro hNil
    have hUri := h.uri
    rw [hNil] at hUri
    cases hUri
  obtain ⟨ruri, hRead, hParse⟩ := @slineParse_request m'
    ⟨.lit (r.partsOut m).join, 0, (r.slineOut m).length⟩ _ _ h.method (read_begin (r.slineOut m) _) hSome
    h.space
  obtain ⟨up, hp, hRun, hTaken⟩ := @parse_uri m' (r.partsOut m).join _ ruri t hRead h.uri (by omega)
  have hTable : Heap.alignedSize hp.alen = t.room := by
    rw [hTaken]
    exact Uri.sized.aligned _
  obtain ⟨rp, hWire, hSline, -, hTyped, hBody⟩ := @ctorFromwire_written T m'
    (r.written.map (BuildHdr.typed m)) _ (r.slineOut m) (m.read r.body) _ hp rfl (oneLine_slineOut h)
    (hParse hRun) (fun hNil => h.some (List.map_eq_nil_iff.mp hNil)) (by
      intro p hp
      obtain ⟨hdr, hIn, rfl⟩ := List.mem_map.mp hp
      exact h.hdrs hdr (mem_written hIn)) (by
      rw [List.length_map, hTable]
      exact hRoom) hLen
  exact ⟨rp, ruri, hWire, hSline, hRead, hTyped, hBody⟩

/-- What `usipy_sip_msg_build_cb` has built of a request, `usipy_sip_msg_ctor_fromwire` reads back. -/
theorem build_reads {m' : Mem} {r : BuildReq} {t : UriText} {hp hp' : Heap} {s : Str}
    (h : r.Plain (hp.mem m) t) (hStays : ∀ c ∈ r.build, ∀ s ∈ c.strs, hp.Settled s)
    (hBuild : (Heap.build m r.build).run hp = Option.some (.ok s, hp'))
    (hRoom : t.room + sizeofHdr * r.written.length ≤
      msgHeapSize s.l) (hLen : s.l ≤ 2 ^ 31) :
    ∃ rp ruri, ctorFromwire T m' ((hp'.mem m).read s) = Option.some rp ∧
      rp.sline = Option.some (.req r.method ruri) ∧ m'.read ruri = r.uriOut (hp.mem m) ∧
        rp.typed m' = r.written.map (BuildHdr.typed (hp.mem m)) ∧
          m'.read rp.body = (hp.mem m).read r.body := by
  obtain ⟨-, -, hRead, -⟩ := Heap.build_ok hStays hBuild
  rw [outAll_build] at hRead
  have hLength : s.l = (r.partsOut (hp.mem m)).join.length := by
    rw [← hRead, Mem.length_read]
  rw [hLength] at hRoom hLen
  rw [hRead]
  exact ctorFromwire_parts h hRoom hLen

/-- A BYE, its Content-Length given before its CSeq. -/
def bye : BuildReq where
  method := .BYE
  ruri := { proto := Str.lit (bytes "sip"), host := Str.lit (bytes "a") }
  hdrs := [⟨.CALLID, .generic (Str.lit (bytes "1"))⟩, ⟨.CONTENTLENGTH, .generic (Str.lit (bytes "0"))⟩,
    ⟨.CSEQ, .cseq { val := 2, method := .BYE }⟩]
  body := Str.null

theorem plain_bye : Plain (fun _ => .zero) bye { proto := bytes "sip", host := bytes "a" } where
  method := by decide
  uri := by decide +kernel
  space := by decide +kernel
  line := oneLine_of_plain (by decide +kernel)
  some := by decide +kernel
  hdrs := by
    have hAll : ∀ h ∈ bye.hdrs, BuildHdr.typed (fun _ => .zero) h ∈
        [(Hf.CALLID, bytes "1"), (.CONTENTLENGTH, bytes "0"), (.CSEQ, bytes "2 BYE")] := by
      decide +kernel
    have hWritable : ∀ p ∈ [(Hf.CALLID, bytes "1"), (.CONTENTLENGTH, bytes "0"), (.CSEQ, bytes "2 BYE")],
        p.1 ≠ .generic ∧ (hdrDb p.1).cantype = p.1 ∧ (∀ c ∈ p.2.head?, Str.isLws c = false) ∧
          (∀ c ∈ p.2.getLast?, Str.isLws c = false) ∧ (∀ c ∈ p.2, c ≠ 13) ∧ ch ',' ∉ p.2 := by
      decide +kernel
    intro h hIn
    obtain ⟨hKnown, hFull, hFirst, hLast, hPlain, hComma⟩ := hWritable _ (hAll h hIn)
    exact ⟨hKnown, hFull, carried_of_plain hFirst hLast hPlain, fun _ => hComma⟩

theorem build_reads_bye : ∃ (s : Str) (hp' : Heap) (rp : WireMsg) (ruri : Str),
    (Heap.build (fun _ => .zero) bye.build).run (Heap.init none .zero 512 0) =
        Option.some (.ok s, hp') ∧
      ctorFromwire FastParser.plainShift (fun _ => .zero) ((hp'.mem fun _ => .zero).read s) =
          Option.some rp ∧
        rp.sline = Option.some (.req .BYE ruri) ∧
          rp.typed (fun _ => .zero) =
            [(.CALLID, bytes "1"), (.CSEQ, bytes "2 BYE"), (.CONTENTLENGTH, bytes "0")] := by
  have hTest : ((Heap.build (fun _ => .zero) bye.build).run (Heap.init none .zero 512 0)).any (fun out =>
      out.1.toOption.any fun s => decide (Uri.sizeof 0 + sizeofHdr * bye.written.length ≤
        msgHeapSize s.l) && decide (s.l ≤ 2 ^ 31)) = true := by
    decide +kernel
  obtain ⟨⟨r, hp'⟩, hBuild, hTest⟩ := (Option.any_eq_true _ _).mp hTest
  cases r with
  | error e => cases hTest
  | ok s =>
    obtain ⟨hRoom, hLen⟩ := (Bool.and_eq_true _ _).mp hTest
    obtain ⟨rp, ruri, hWire, hSline, -, hTyped, -⟩ := @build_reads FastParser.plainShift (fun _ => .zero)
      (fun _ => .zero) bye _ (Heap.init none .zero 512 0) hp' s plain_bye
      (fun c _ s _ i _ hSlot => by cases hSlot) hBuild (of_decide_eq_true hRoom) (of_decide_eq_true hLen)
    refine ⟨s, hp', rp, ruri, hBuild, hWire, hSline, hTyped.trans ?_⟩
    decide +kernel

end BuildReq

end Microsippy
