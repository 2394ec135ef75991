import Mathlib.Data.List.TakeWhile
import Microsippy.Decimal
import Microsippy.Tm.Uas

/-! # URIs made from an address

`usipy_sip_tm_init_luri`, `usipy_sip_tm_format_local_uri` and
`usipy_sip_tm_uas_format_local_contact_uri` print URIs that `usipy_sip_uri_parse` is to take apart.
-/

namespace Microsippy

set_option autoImplicit false

/-! ## Taking a URI apart -/

theorem Uri.parseParts_some {m : Mem} {s : Str} {up : Uri} (h : Uri.parseParts m s = some up) :
    ∃ pnum, Uri.splitPort m pnum = some (up.host, up.port) := by
  simp only [Uri.parseParts, Option.bind_eq_bind, Option.bind_eq_some_iff] at h
  obtain ⟨⟨proto, iup⟩, -, ⟨host, port⟩, hHost, hUp⟩ := h
  obtain rfl := Option.some.inj hUp
  split at hHost
  · contradiction
  · exact ⟨_, hHost⟩

/-- The host that `usipy_sip_uri_parse` finds has no colon. -/
theorem Uri.colon_not_mem_host {m : Mem} {s : Str} {up : Uri} (h : Uri.parseParts m s = some up) :
    ch ':' ∉ m.read up.host := by
  obtain ⟨pnum, hHost⟩ := Uri.parseParts_some h
  simp only [Uri.splitPort] at hHost
  split at hHost
  · rename_i hSplit
    simp only [Option.map_eq_some_iff, Prod.mk.injEq] at hHost
    obtain ⟨-, -, hIs, -⟩ := hHost
    exact hIs ▸ Str.not_mem_of_split hSplit
  · rename_i hSplit
    obtain ⟨hIs, -⟩ : pnum = up.host ∧ 0 = up.port := by simpa using hHost
    intro hMem
    have hNone : Str.chr m pnum (ch ':') = none := Option.map_eq_none_iff.mp hSplit
    rw [Str.chr, List.findIdx?_eq_none_iff] at hNone
    have hNe := hNone _ (hIs ▸ hMem)
    simp at hNe

/-- A host, in brackets for IPv6. -/
def hostText (af : Af) (host : Bytes) : Bytes :=
  if af = .INET6 then bytes "[" ++ host ++ bytes "]" else host

/-- A text without what a URI's parser stops at. -/
def Plain (b : Bytes) : Prop := ∀ c ∈ [ch '@', ch ';', ch '?', 0], c ∉ b

instance (b : Bytes) : Decidable (Plain b) :=
  inferInstanceAs (Decidable (∀ c ∈ [ch '@', ch ';', ch '?', 0], c ∉ b))

/-- A user part without characters that need escaping. -/
def UserText (b : Bytes) : Prop := ∀ c ∈ [ch ':', ch '@', 0], c ∉ b

instance (b : Bytes) : Decidable (UserText b) :=
  inferInstanceAs (Decidable (∀ c ∈ [ch ':', ch '@', 0], c ∉ b))

/-- The host and the port as they are printed. -/
def hostportText (host : Bytes) : Option UInt16 → Bytes
  | some port => host ++ ch ':' :: dec port.toNat
  | none => host

theorem mem_hostportText {host : Bytes} {port : Option UInt16} {c : UInt8}
    (h : c ∈ hostportText host port) : c ∈ host ∨ c = ch ':' ∨ ch '0' ≤ c ∧ c ≤ ch '9' := by
  cases port with
  | none => exact Or.inl h
  | some port =>
    rcases List.mem_append.mp h with hIn | hIn
    · exact Or.inl hIn
    · rcases List.mem_cons.mp hIn with hIs | hDigit
      · exact Or.inr (Or.inl hIs)
      · exact Or.inr (Or.inr (mem_dec hDigit))

/-- Nothing after the user of a URI made from an address is taken for a delimiter. -/
theorem stop_not_mem_hostport {host : Bytes} {port : Option UInt16} (hHost : Plain host) {c : UInt8}
    (hc : c ∈ [ch '@', ch ';', ch '?']) : c ∉ hostportText host port := by
  intro hMem
  rcases mem_hostportText hMem with hIn | hIs | ⟨hLow, hHigh⟩
  · refine hHost c ?_ hIn
    simp only [List.mem_cons] at hc ⊢
    tauto
  · subst hIs
    exact absurd hc (by decide)
  · simp only [List.mem_cons, List.not_mem_nil, or_false] at hc
    rcases hc with rfl | rfl | rfl <;> revert hLow hHigh <;> decide

theorem splitPort_hostport {m : Mem} {pnum : Str} {host : Bytes} {port : Option UInt16}
    (hColon : ch ':' ∉ host) (hPort : port ≠ some 0)
    (hRead : m.read pnum = hostportText host port) :
    ∃ x, Uri.splitPort m pnum = some (x, (port.getD 0).toUInt32) ∧ m.read x = host := by
  cases port with
  | none =>
    have hNone : pnum.splitElemNlws m (ch ':') = none := by
      refine Str.split_eq_none ?_
      rw [hRead]
      exact hColon
    refine ⟨pnum, ?_, hRead⟩
    rw [Uri.splitPort, hNone]
    rfl
  | some port =>
    obtain ⟨x, y, hSplit, hx, hy⟩ := Str.split_of_append hRead hColon
    have hNonzero : port.toNat ≠ 0 := fun h => hPort (congrArg some (UInt16.toNat_inj.mp h))
    have hSmall := port.toNat_lt
    have hOne : (1 : UInt32).toNat = 1 := rfl
    have hMax : (65535 : UInt32).toNat = 65535 := rfl
    obtain ⟨v, hValue, hIs⟩ := @atouiRange_dec m y port.toNat 1 65535 hy (by omega) (by omega)
    have hV : v = port.toUInt32 := by
      apply UInt32.toNat_inj.mp
      rw [hIs, UInt16.toNat_toUInt32]
    have hElem : pnum.splitElemNlws m (ch ':') = some (x, y) := hSplit
    refine ⟨x, ?_, hx⟩
    rw [Uri.splitPort, hElem]
    simp [hValue, hV]

/-- The user as it is printed before a host. -/
def userText (user : Bytes) : Bytes := if user = [] then [] else user ++ [ch '@']

theorem splitUser_text {m : Mem} {iup : Str} {user rest : Bytes} (hUser : UserText user)
    (hAt : ch '@' ∉ rest) (hRead : m.read iup = userText user ++ rest) :
    ∃ u p pnum, Uri.splitUser m iup = (u, p, pnum) ∧ m.read u = user ∧ m.read pnum = rest := by
  by_cases hNone : user = []
  · subst hNone
    refine ⟨Str.null, Str.null, iup, ?_, Mem.read_null m, hRead⟩
    have hSplit : iup.splitElemNlws m (ch '@') = none := by
      refine Str.split_eq_none ?_
      rw [hRead]
      exact hAt
    rw [Uri.splitUser, hSplit]
  · rw [userText, if_neg hNone, List.append_assoc] at hRead
    obtain ⟨y, z, hSplit, hy, hz⟩ := Str.split_of_append hRead (hUser (ch '@') (by simp))
    have hElem : iup.splitElemNlws m (ch '@') = some (y, z) := hSplit
    have hNoPassword : y.split m (ch ':') = none := by
      refine Str.split_eq_none ?_
      rw [hy]
      exact hUser (ch ':') (by simp)
    refine ⟨y, Str.null, z, ?_, hy, hz⟩
    rw [Uri.splitUser, hElem]
    simp only [hNoPassword]

/-- The text of a URI made from an address. -/
def uriText (user host : Bytes) (port : Option UInt16) : Bytes :=
  bytes "sip" ++ ch ':' :: (userText user ++ hostportText host port)

/-- A URI made from an address is taken apart into what it was made from, unless the host has a
colon. -/
theorem Uri.parseParts_uriText {m : Mem} {s : Str} {user host : Bytes} {port : Option UInt16}
    (hRead : m.read s = uriText user host port) (hUser : UserText user) (hHost : Plain host)
    (hSome : host ≠ []) (hPort : port ≠ some 0) (hColon : ch ':' ∉ host) :
    ∃ up, Uri.parseParts m s = some up ∧ up.parameters = [] ∧ up.headers = [] ∧
      m.read up.user = user ∧ m.read up.host = host ∧ up.port = (port.getD 0).toUInt32 := by
  have hStops : ∀ c ∈ [ch '@', ch ';', ch '?'], c ∉ hostportText host port :=
    fun _ hc => stop_not_mem_hostport hHost hc
  obtain ⟨proto, iup, hFirst, -, hIup⟩ := Str.split_of_append hRead (by decide)
  obtain ⟨u, p, pnum, hUserIs, hU, hPnum⟩ := splitUser_text hUser (hStops _ (by simp)) hIup
  obtain ⟨x, hPortIs, hx⟩ := splitPort_hostport hColon hPort hPnum
  have hSemi : pnum.splitElemNlws m (ch ';') = none :=
    Str.split_eq_none (hPnum ▸ hStops (ch ';') (by simp))
  have hQuery : pnum.splitElemNlws m (ch '?') = none :=
    Str.split_eq_none (hPnum ▸ hStops (ch '?') (by simp))
  have hSpaces : Uri.splitSpaces m pnum = (pnum, Str.null, Str.null) := by
    rw [Uri.splitSpaces, hSemi, hQuery]
  have hLong : pnum.l ≠ 0 := by
    rw [← Mem.length_read m pnum, hPnum]
    have hPos := List.length_pos_iff.mpr hSome
    cases port with
    | none => exact Nat.pos_iff_ne_zero.mp hPos
    | some port =>
      rw [hostportText, List.length_append]
      omega
  have hElem : s.splitElemNlws m (ch ':') = some (proto, iup) := hFirst
  refine ⟨{ proto, user := u, password := p, host := x, port := (port.getD 0).toUInt32 },
    ?_, rfl, rfl, hU, hx, rfl⟩
  simp only [Uri.parseParts, hElem, Option.bind_eq_bind, Option.bind_some, hUserIs, hSpaces,
    if_neg hLong, hPortIs]
  rfl

/-- What the parser finds, on any heap with room for it. -/
def ParsesTo (m : Mem) (s : Str) (user host : Bytes) (port : Option UInt16) : Prop :=
  ∀ hp : Heap, hp.mem m = m → hp.Room (Uri.sizeof 0) →
    ∃ up hp', (Uri.parse m s).run hp = some (.ok up, hp') ∧ m.read up.user = user ∧
      m.read up.host = host ∧ up.port = (port.getD 0).toUInt32

theorem Uri.parse_ok {m : Mem} {s : Str} {hp hp' : Heap} {up : Uri}
    (hRun : (Uri.parse m s).run hp = some (.ok up, hp')) :
    ∃ hp₁ : Heap, hp₁.mem m = hp.mem m ∧ Uri.parseParts (hp₁.mem m) s = some up := by
  simp only [Uri.parse, Op.bind_ok, Op.get_ok, Op.cleanup_ok, Op.orElse_ok, Op.pure_ok] at hRun
  obtain ⟨start, hp₁, hAlloc, _, _, ⟨rfl, rfl⟩, up, _, ⟨hParts, rfl⟩, _, _, _, _, _, _, rfl, _⟩ := hRun
  obtain ⟨-, -, rfl⟩ := Heap.reserve_ok.mp hAlloc
  exact ⟨_, rfl, hParts⟩

theorem parsesTo_of_parts {m : Mem} {s : Str} {user host : Bytes} {port : Option UInt16} {up : Uri}
    (hParts : Uri.parseParts m s = some up) (hParams : up.parameters = []) (hHdrs : up.headers = [])
    (hUser : m.read up.user = user) (hHost : m.read up.host = host)
    (hPort : up.port = (port.getD 0).toUInt32) : ParsesTo m s user host port := by
  intro hp hMem hRoom
  have hRun : (Uri.parse m s).run hp = some (.ok up,
      { hp with alen := Heap.alignedSize hp.alen + Heap.alignedSize (Uri.sizeof 0) }) := by
    rw [Uri.parse, Op.run_bind, Heap.allocCnt, Heap.alloc_run hRoom, Op.andThen_ok, Op.run_bind,
      Op.run_get, Op.andThen_ok]
    refine Op.cleanup_ok.mpr ?_
    have hMem' : ({ hp with
        alen := Heap.alignedSize hp.alen + Heap.alignedSize (Uri.sizeof 0) } : Heap).mem m = m := hMem
    simp [hMem', hParts, hParams, hHdrs, extendPairs]
  exact ⟨up, _, hRun, hUser, hHost, hPort⟩

/-- A host with a colon is never found. -/
theorem not_parsesTo_of_colon {m : Mem} {s : Str} {user host : Bytes} {port : Option UInt16}
    (hColon : ch ':' ∈ host) : ¬ ParsesTo m s user host port := by
  intro hParses
  have hRoom : ({ tsize := 104 } : Heap).Room (Uri.sizeof 0) := ⟨Nat.zero_le _, by decide⟩
  obtain ⟨up, hp', hRun, -, hHost, -⟩ := hParses { tsize := 104 } rfl hRoom
  obtain ⟨hp₁, hMem, hParts⟩ := Uri.parse_ok hRun
  have hNot := Uri.colon_not_mem_host hParts
  rw [hMem] at hNot
  exact hNot (hHost ▸ hColon)

/-! ## The three makers -/

/-- The URIs the manager makes from an address, with the user, the family, the host and the port they
are made from. -/
inductive MadeUri : Mem → Str → Bytes → Af → Bytes → Option UInt16 → Prop where
  /-- `usipy_sip_tm_init_luri`. -/
  | luri (m : Mem) {p : CtorParams} {af : Af} {host : Bytes} {port : UInt16} {laddr : Addr}
      {luri : Str} {hp : Heap} (hSock : p.sockname = some (af, host, port))
      (hRun : (initLaddr p).run (Heap.init none .zero tmHeapSize 0) = some (.ok (laddr, luri), hp)) :
      MadeUri m luri [] af host (some port)
  /-- `usipy_sip_tm_format_local_uri`. -/
  | localUri {m : Mem} {localp : Addr} {userp urip : Str} {include_port : Bool} {tp tp' : Txi}
      (hRun : (formatLocalUri m localp userp include_port).run tp = some (.ok urip, tp')) :
      MadeUri (tp'.scratch.mem m) urip ((tp.scratch.mem m).read userp) localp.af
        ((tp.scratch.mem m).read localp.host) (if include_port then some localp.port else none)
  /-- `usipy_sip_tm_uas_format_local_contact_uri`. -/
  | contact {m : Mem} {localp : Addr} {urip : Str} {tp tp' : Txi}
      (hRun : (uasFormatLocalContactUri m localp).run tp = some (.ok urip, tp')) :
      MadeUri (tp'.scratch.mem m) urip [] localp.af ((tp.scratch.mem m).read localp.host)
        (some localp.port)

theorem cstr_of_plain {b : Bytes} (h : 0 ∉ b) : cstr b = b := by
  rw [cstr, List.takeWhile_eq_self_iff]
  intro c hc
  have hNe : c ≠ 0 := fun hIs => h (hIs ▸ hc)
  simpa using hNe

theorem hostPortUri_text {af : Af} {host uri : Bytes} {port : UInt16} (hPlain : 0 ∉ host)
    (h : hostPortUri af host port = some uri) : uri = uriText [] (hostText af host) (some port) := by
  have hSip : bytes "sip:" = bytes "sip" ++ [ch ':'] := by decide
  have hSipBracket : bytes "sip:[" = bytes "sip" ++ [ch ':', ch '['] := by decide
  have hColon : bytes ":" = [ch ':'] := by decide
  have hBracket : bytes "[" = [ch '['] := by decide
  have hClosed : bytes "]:" = [ch ']', ch ':'] := by decide
  have hClose : bytes "]" = [ch ']'] := by decide
  cases af with
  | unspec => contradiction
  | INET =>
    obtain rfl := Option.some.inj h
    simp [uriText, hostText, userText, hostportText, cstr_of_plain hPlain, hSip, hColon]
  | INET6 =>
    obtain rfl := Option.some.inj h
    simp [uriText, hostText, userText, hostportText, cstr_of_plain hPlain, hSipBracket, hBracket,
      hClosed, hClose]

theorem text_ok {m : Mem} {s : Str} {tp tp' : Txi} {b : Bytes} :
    (text m s).run tp = some (.ok b, tp') ↔ cstr ((tp.scratch.mem m).read s) = b ∧ tp = tp' := by
  simp only [text, Op.bind_ok, Op.get_ok, Op.pure_ok]
  constructor
  · rintro ⟨_, _, ⟨rfl, rfl⟩, h⟩
    exact h
  · rintro ⟨h, rfl⟩
    exact ⟨tp, tp, ⟨rfl, rfl⟩, h, rfl⟩

theorem printed_read {m : Mem} {t : Bytes} {tp tp' : Txi} {s : Str}
    (hRun : (onScratch .NOSPC (Heap.sprintf t)).run tp = some (.ok s, tp')) :
    (tp'.scratch.mem m).read s = t := by
  obtain ⟨hp, hPrint, rfl⟩ := onScratch_ok.mp hRun
  exact (Heap.sprintf_read m hPrint).1

/-- The user part as `usipy_sip_tm_format_local_uri` prints it. -/
theorem printedUser {m : Mem} {userp : Str} (hPlain : 0 ∉ m.read userp) :
    (if userp.l = 0 then [] else cstr (m.read userp) ++ bytes "@") = userText (m.read userp) := by
  have hAt : bytes "@" = [ch '@'] := by decide
  by_cases hEmpty : userp.l = 0
  · have hRead : m.read userp = [] := List.length_eq_zero_iff.mp (by rw [Mem.length_read, hEmpty])
    simp [hEmpty, hRead, userText]
  · have hRead : m.read userp ≠ [] := by
      intro hNil
      exact hEmpty (by rw [← Mem.length_read m userp, hNil]; rfl)
    rw [if_neg hEmpty, userText, if_neg hRead, cstr_of_plain hPlain, hAt]

theorem luri_read {m : Mem} {p : CtorParams} {af : Af} {host : Bytes} {port : UInt16} {laddr : Addr}
    {luri : Str} {hp : Heap} (hPlain : 0 ∉ host) (hSock : p.sockname = some (af, host, port))
    (hRun : (initLaddr p).run (Heap.init none .zero tmHeapSize 0) = some (.ok (laddr, luri), hp)) :
    m.read luri = uriText [] (hostText af host) (some port) := by
  simp only [initLaddr, hSock, Op.bind_ok, Op.orElse_ok, Op.require_ok, Op.pure_ok,
    Option.some.injEq, Prod.mk.injEq] at hRun
  obtain ⟨_, _, ⟨rfl, rfl⟩, _, _, ⟨-, rfl⟩, _, _, hHost, uri, _, ⟨hUri, rfl⟩, _, _, hPrint, ⟨-, rfl⟩,
    rfl⟩ := hRun
  have hRead := (Heap.sprintf_read m hPrint).1
  obtain ⟨rfl, -⟩ := Heap.sprintf_ok hPrint
  obtain ⟨rfl, -⟩ := Heap.sprintf_ok hHost
  rw [cstr_of_plain hPlain] at hUri
  rw [← hostPortUri_text hPlain hUri]
  exact hRead

theorem localUri_read {m : Mem} {localp : Addr} {userp urip : Str} {include_port : Bool} {tp tp' : Txi}
    (hUser : 0 ∉ (tp.scratch.mem m).read userp) (hHost : 0 ∉ (tp.scratch.mem m).read localp.host)
    (hRun : (formatLocalUri m localp userp include_port).run tp = some (.ok urip, tp')) :
    (tp'.scratch.mem m).read urip =
      uriText ((tp.scratch.mem m).read userp)
        (hostText localp.af ((tp.scratch.mem m).read localp.host))
        (if include_port then some localp.port else none) := by
  have hSip : bytes "sip:" = bytes "sip" ++ [ch ':'] := by decide
  have hColon : bytes ":" = [ch ':'] := by decide
  simp only [formatLocalUri, Op.bind_ok, text_ok] at hRun
  obtain ⟨_, _, ⟨rfl, rfl⟩, _, _, ⟨rfl, rfl⟩, hPrint⟩ := hRun
  rw [printedUser hUser, cstr_of_plain hHost] at hPrint
  cases hAf : localp.af with
  | unspec => simp [hAf] at hPrint
  | INET =>
    simp only [hAf] at hPrint
    rw [printed_read hPrint, hSip, hColon]
    cases include_port <;> simp [uriText, hostText, hostportText]
  | INET6 =>
    simp only [hAf] at hPrint
    rw [printed_read hPrint, hSip, hColon]
    cases include_port <;> simp [uriText, hostText, hostportText]

/-- What a made URI reads. -/
theorem MadeUri.read {m : Mem} {urip : Str} {user host : Bytes} {af : Af} {port : Option UInt16}
    (hMade : MadeUri m urip user af host port) (hUser : UserText user) (hHost : Plain host) :
    m.read urip = uriText user (hostText af host) port := by
  have hNul : 0 ∉ host := hHost 0 (by simp)
  have hNulUser : 0 ∉ user := hUser 0 (by simp)
  cases hMade with
  | luri _ hSock hRun => exact luri_read hNul hSock hRun
  | localUri hRun => exact localUri_read hNulUser hNul hRun
  | contact hRun =>
    simp only [uasFormatLocalContactUri, Op.bind_ok, Op.orElse_ok, text_ok] at hRun
    obtain ⟨_, _, ⟨rfl, rfl⟩, uri, _, ⟨hUri, rfl⟩, hPrint⟩ := hRun
    rw [cstr_of_plain hNul] at hUri
    rw [printed_read hPrint, hostPortUri_text hNul hUri]

theorem plain_hostText {af : Af} {host : Bytes} (hHost : Plain host) : Plain (hostText af host) := by
  intro c hc hMem
  rw [hostText] at hMem
  split at hMem
  · rcases List.mem_append.mp hMem with hIn | hIs
    · rcases List.mem_append.mp hIn with hIs | hIn
      · revert hIs
        simp only [List.mem_cons, List.not_mem_nil, or_false] at hc
        rcases hc with rfl | rfl | rfl | rfl <;> decide
      · exact hHost c hc hIn
    · revert hIs
      simp only [List.mem_cons, List.not_mem_nil, or_false] at hc
      rcases hc with rfl | rfl | rfl | rfl <;> decide
  · exact hHost c hc hMem

theorem colon_mem_hostText {af : Af} {host : Bytes} :
    ch ':' ∈ hostText af host ↔ ch ':' ∈ host := by
  rw [hostText]
  split
  · have hOpen : ch ':' ∉ bytes "[" := by decide
    have hClose : ch ':' ∉ bytes "]" := by decide
    simp [hOpen, hClose]
  · rfl

/-- A URI made from an address is parsed back, to its user, its host and its port, just when the
host has no colon. -/
theorem madeUri_parses_iff {m : Mem} {urip : Str} {user host : Bytes} {af : Af}
    {port : Option UInt16} (hMade : MadeUri m urip user af host port) (hUser : UserText user)
    (hHost : Plain host) (hSome : host ≠ []) (hPort : port ≠ some 0) :
    ParsesTo m urip user (hostText af host) port ↔ ch ':' ∉ host := by
  constructor
  · intro hParses hColon
    exact not_parsesTo_of_colon (colon_mem_hostText.mpr hColon) hParses
  · intro hColon
    have hNonempty : hostText af host ≠ [] := by
      rw [hostText]
      split
      · simp [hSome]
      · exact hSome
    obtain ⟨up, hParts, hParams, hHdrs, hU, hH, hP⟩ := Uri.parseParts_uriText
      (hMade.read hUser hHost) hUser (plain_hostText hHost) hNonempty hPort
      (fun hMem => hColon (colon_mem_hostText.mp hMem))
    exact parsesTo_of_parts hParts hParams hHdrs hU hH hP

/-- A manager bound to an address. -/
def boundTo (af : Af) (host : String) (port : UInt16) : CtorParams :=
  { sockname := some (af, bytes host, port), transport := .UDP, max_transactions := 1 }

theorem madeUri_of_test {p : CtorParams} {af : Af} {host : Bytes} {port : UInt16}
    (hSock : p.sockname = some (af, host, port))
    (hTest : ((initLaddr p).run (Heap.init none .zero tmHeapSize 0)).any
      (fun r => r.1.toOption.isSome) = true) :
    ∃ luri, MadeUri (fun _ => .zero) luri [] af host (some port) := by
  obtain ⟨⟨r, hp⟩, hRun, hOk⟩ := (Option.any_eq_true _ _).mp hTest
  cases r with
  | error e => contradiction
  | ok r => exact ⟨r.2, .luri _ hSock hRun⟩

theorem madeUri_parses_v4 : ∃ urip, ParsesTo (fun _ => .zero) urip [] (bytes "10.0.0.1") (some 5060) := by
  obtain ⟨luri, hMade⟩ := madeUri_of_test
    (rfl : (boundTo .INET "10.0.0.1" 5060).sockname = _) (by decide +kernel)
  exact ⟨luri, (madeUri_parses_iff hMade (by decide +kernel) (by decide +kernel) (by decide)
    (by decide)).mpr (by decide)⟩

/-- The manager's own URI at `::1` is not parsed back. -/
theorem luri_v6_not_parsed : ∃ luri,
    MadeUri (fun _ => .zero) luri [] .INET6 (bytes "::1") (some 5060) ∧
      ¬ ParsesTo (fun _ => .zero) luri [] (hostText .INET6 (bytes "::1")) (some 5060) := by
  obtain ⟨luri, hMade⟩ := madeUri_of_test
    (rfl : (boundTo .INET6 "::1" 5060).sockname = _) (by decide +kernel)
  exact ⟨luri, hMade, not_parsesTo_of_colon (by decide)⟩

end Microsippy
