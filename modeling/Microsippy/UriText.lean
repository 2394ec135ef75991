import Microsippy.ValueRound

/-! # URIs as text

What `usipy_sip_uri_parse` makes of the bytes of a URI, and which URIs are parsed to the same after
`usipy_sip_uri_build` has written them.
-/

namespace Microsippy

set_option autoImplicit false

/-- The bytes of a URI, the parameters and headers by name and value. -/
structure UriText where
  proto : Bytes := []
  user : Bytes := []
  password : Bytes := []
  host : Bytes := []
  port : UInt32 := 0
  parameters : List (Bytes × Bytes) := []
  headers : List (Bytes × Bytes) := []
  deriving DecidableEq

namespace Uri

open Params

/-- No white space is dropped in a URI. -/
def noWs (_ : UInt8) : Bool := false

/-- The user and the password before the `@`, if there is one, and what follows. -/
def userText (b : Bytes) : Bytes × Bytes × Bytes :=
  match cut (ch '@') b with
  | some (userpass, b) =>
    match cut (ch ':') userpass with
    | some (user, password) => (user, password, b)
    | none => (userpass, [], b)
  | none => ([], [], b)

/-- The host and port, the parameters and the headers. -/
def spacesText (b : Bytes) : Bytes × Bytes × Bytes :=
  match cut (ch ';') b with
  | none =>
    match cut (ch '?') b with
    | none => (b, [], [])
    | some (pnum, hspace) => (pnum, [], hspace)
  | some (pnum, b) =>
    match cut (ch '?') b with
    | none => (pnum, b, [])
    | some (pspace, hspace) => (pnum, pspace, hspace)

/-- The host and the port, 0 where there is none. -/
def placeText (pnum : Bytes) : Option (Bytes × UInt32) :=
  if pnum = [] then none
  else match cut (ch ':') pnum with
    | some (host, port) => (portText port).map fun port => (host, port)
    | none => some (pnum, 0)

/-- `usipy_sip_uri_parse` on bytes. -/
def parseText (b : Bytes) : Option UriText := do
  let (proto, b) ← cut (ch ':') b
  let (user, password, b) := userText b
  let (pnum, pspace, hspace) := spacesText b
  let (host, port) ← placeText pnum
  return {
    proto, user, password, host, port
    parameters := parsed noWs (ch ';') pspace, headers := parsed noWs (ch '&') hspace }

def texts (m : Mem) (up : Uri) : UriText where
  proto := m.read up.proto
  user := m.read up.user
  password := m.read up.password
  host := m.read up.host
  port := up.port
  parameters := Params.texts m up.parameters
  headers := Params.texts m up.headers

theorem read_splitElemNlws (m : Mem) (x : Str) (dlm : UInt8) :
    (x.splitElemNlws m dlm).map (readPair m) = cut dlm (m.read x) := Str.read_split_cut m x dlm

theorem read_splitUser (m : Mem) (iup : Str) :
    (m.read (splitUser m iup).1, m.read (splitUser m iup).2.1, m.read (splitUser m iup).2.2) =
      userText (m.read iup) := by
  rw [splitUser, userText, ← read_splitElemNlws]
  cases iup.splitElemNlws m (ch '@') with
  | none => rfl
  | some x =>
    obtain ⟨userpass, iup⟩ := x
    simp only [Option.map_some, readPair]
    rw [← Str.read_split_cut]
    cases userpass.split m (ch ':') <;> rfl

theorem read_splitSpaces (m : Mem) (iup : Str) :
    (m.read (splitSpaces m iup).1, m.read (splitSpaces m iup).2.1, m.read (splitSpaces m iup).2.2) =
      spacesText (m.read iup) := by
  rw [splitSpaces, spacesText, ← read_splitElemNlws]
  cases iup.splitElemNlws m (ch ';') with
  | none =>
    simp only [Option.map_none]
    rw [← read_splitElemNlws]
    cases iup.splitElemNlws m (ch '?') <;> rfl
  | some x =>
    obtain ⟨pnum, iup⟩ := x
    simp only [Option.map_some, readPair]
    rw [← read_splitElemNlws]
    cases iup.splitElemNlws m (ch '?') <;> rfl

theorem read_splitPort (m : Mem) (pnum : Str) :
    (if pnum.l = 0 then none else splitPort m pnum).map (fun place => (m.read place.1, place.2)) =
      placeText (m.read pnum) := by
  have hEmpty := NameAddr.read_eq_nil m pnum
  rw [placeText]
  simp only [hEmpty]
  split
  · rfl
  · rw [splitPort, ← read_splitElemNlws]
    cases pnum.splitElemNlws m (ch ':') with
    | none => rfl
    | some x => simp [readPair, read_port, Option.map_map, Function.comp_def]

theorem read_parseParts (m : Mem) (surip : Str) :
    (parseParts m surip).map (texts m) = parseText (m.read surip) := by
  rw [parseParts, parseText, ← read_splitElemNlws]
  cases surip.splitElemNlws m (ch ':') with
  | none => rfl
  | some x =>
    obtain ⟨proto, iup⟩ := x
    have hUser := read_splitUser m iup
    have hSpaces := read_splitSpaces m (splitUser m iup).2.2
    have hPlace := read_splitPort m (splitSpaces m (splitUser m iup).2.2).1
    simp only [Option.map_some, readPair, Option.bind_eq_bind, Option.bind_some, Option.pure_def, ← hUser,
      ← hSpaces, ← hPlace]
    cases (if (splitSpaces m (splitUser m iup).2.2).1.l = 0 then none
      else splitPort m (splitSpaces m (splitUser m iup).2.2).1) with
    | none => rfl
    | some place =>
      simp only [Option.map_some, Option.bind_some, texts, texts_pairs]
      rfl

/-! ## The parser -/

theorem sized : Sized sizeof := sized_of_header (by decide)

/-- The parameters and the headers have room as one list. -/
theorem parse_eq (m : Mem) (surip : Str) :
    parse m surip = paramsParser sizeof parseParts (fun up => up.parameters ++ up.headers) m surip := by
  have hBoth : ∀ (start : Nat) (up : Uri),
      (extendPairs sizeof start 0 up.parameters >>= fun _ =>
        extendPairs sizeof start up.parameters.length up.headers >>= fun _ => (pure up : HeapM Uri)) =
      extendPairs sizeof start 0 (up.parameters ++ up.headers) >>= fun _ => pure up := by
    intro start up
    rw [extendPairs_append, Nat.zero_add]
    funext hp
    change Op.run _ hp = Op.run _ hp
    simp only [Op.run_bind]
    cases (extendPairs sizeof start 0 up.parameters).run hp with
    | none => rfl
    | some r =>
      obtain ⟨r, hp'⟩ := r
      cases r <;> rfl
  rw [parse, paramsParser]
  simp only [hBoth]

/-- Whether a heap of any kind with the room for them has a text parsed to `t`. -/
def ParsesTo (b : Bytes) (t : UriText) : Prop :=
  ∀ (m : Mem) (hp : Heap), hp.Room (sizeof (t.parameters.length + t.headers.length)) →
    ∃ up hp', (parse m (Str.lit b)).run hp = some (.ok up, hp') ∧ up.texts (hp'.mem m) = t

theorem parsesTo_iff {b : Bytes} {t : UriText} : ParsesTo b t ↔ parseText b = some t := by
  have hCount : ∀ m up, (texts m up).parameters.length + (texts m up).headers.length =
      (up.parameters ++ up.headers).length := by
    intro m up
    rw [List.length_append, texts, Params.texts, Params.texts, List.length_map, List.length_map]
  simp only [ParsesTo, parse_eq]
  exact (@paramsParser_iff sizeof _ _ parseParts (fun up => up.parameters ++ up.headers) sized texts
    (fun _ => parseText) (fun t => t.parameters.length + t.headers.length) read_parseParts hCount b t).trans
      (forall_const Mem)

/-! ## The builder -/

/-- The user and the password as they are written. -/
def userOut (user password : Bytes) : Bytes :=
  if user = [] then [] else user ++ ((if password = [] then [] else ch ':' :: password) ++ [ch '@'])

/-- The parameters as they are written. -/
def paramsOut (parameters : List (Bytes × Bytes)) : Bytes :=
  if parameters = [] then [] else ch ';' :: out (ch ';') parameters

/-- The headers as they are written. -/
def hdrsOut (headers : List (Bytes × Bytes)) : Bytes :=
  if headers = [] then [] else ch '?' :: out (ch '&') headers

/-- What the builder writes. -/
def textOut (t : UriText) : Bytes :=
  t.proto ++ ch ':' :: (userOut t.user t.password ++
    (Via.placeOut t.host t.port ++ (paramsOut t.parameters ++ hdrsOut t.headers)))

theorem outAll_pairs (m : Mem) (sep : String) (c : UInt8) (hSep : bytes sep = [c]) (ps : List TvPair) :
    Chunk.outAll m.read (ps.map (buildPair sep)).flatten =
      ((Params.texts m ps).map fun q => c :: pairOut q).flatten := by
  have hEq : bytes "=" = [ch '='] := by decide
  induction ps with
  | nil => rfl
  | cons p ps ih =>
    have hCons : Params.texts m (p :: ps) = readPair m (p.token, p.value) :: Params.texts m ps := rfl
    have hOne : Chunk.outAll m.read (buildPair sep p) = c :: pairOut (readPair m (p.token, p.value)) := by
      have hValue := NameAddr.read_eq_nil m p.value
      rw [buildPair, Chunk.outAll_append, pairOut, readPair]
      simp only [ne_eq, hValue]
      split
      · simp [Chunk.text, Chunk.out, hSep, hEq]
      · rename_i hNone
        simp [Chunk.text, Chunk.out, hSep, Decidable.not_not.mp hNone]
    rw [List.map_cons, List.flatten_cons, Chunk.outAll_append, ih, hOne, hCons, List.map_cons,
      List.flatten_cons]

theorem plain_buildPair (sep : String) (p : TvPair) : ∀ c ∈ buildPair sep p, c.plain = true := by
  rw [buildPair]
  split <;> simp [Chunk.text, Chunk.plain]

theorem plain_pairs (sep : String) (ps : List TvPair) :
    ∀ c ∈ (ps.map (buildPair sep)).flatten, c.plain = true := by
  intro c hc
  obtain ⟨cs, hcs, hMem⟩ := List.mem_flatten.mp hc
  obtain ⟨p, -, rfl⟩ := List.mem_map.mp hcs
  exact plain_buildPair sep p c hMem

theorem plain_build (up : Uri) : ∀ c ∈ up.build, c.plain = true := by
  rw [build]
  refine List.forall_mem_append.mpr ⟨List.forall_mem_append.mpr ⟨?_, plain_pairs _ _⟩, ?_⟩
  · refine List.forall_mem_append.mpr ⟨List.forall_mem_append.mpr ⟨List.forall_mem_append.mpr ⟨?_, ?_⟩, ?_⟩, ?_⟩
    · simp [Chunk.text, Chunk.plain]
    · split
      · split <;> simp [Chunk.text, Chunk.plain]
      · exact List.forall_mem_nil _
    · simp [Chunk.plain]
    · split <;> simp [Chunk.plain]
  · cases up.headers with
    | nil => exact List.forall_mem_nil _
    | cons h hs => exact List.forall_mem_append.mpr ⟨plain_buildPair _ h, plain_pairs _ hs⟩

theorem out_append {dlm : UInt8} (q : Bytes × Bytes) (qs : List (Bytes × Bytes)) :
    out dlm (q :: qs) = pairOut q ++ (qs.map fun q => dlm :: pairOut q).flatten := by
  cases qs with
  | nil => exact (List.append_nil _).symm
  | cons q' qs => rw [flatten_out (List.cons_ne_nil q' qs), out_cons (List.cons_ne_nil q' qs)]

theorem outAll_texts (m : Mem) (up : Uri) : Chunk.outAll m.read up.build = textOut (up.texts m) := by
  have hColon : bytes ":" = [ch ':'] := by decide
  have hAt : bytes "@" = [ch '@'] := by decide
  have hUser : Chunk.outAll m.read (if up.user.l ≠ 0 then [.put 0 up.user] ++
      (if up.password.l ≠ 0 then [.text ":", .put 0 up.password] else []) ++ [.text "@"] else []) =
      userOut (m.read up.user) (m.read up.password) := by
    have hSome := NameAddr.read_eq_nil m up.user
    have hPassword := NameAddr.read_eq_nil m up.password
    rw [userOut]
    simp only [ne_eq, hSome, hPassword, ite_not]
    split
    · rfl
    · split <;> simp [Chunk.text, Chunk.out, hColon, hAt]
  have hPort : Chunk.outAll m.read (if up.port ≠ 0 then
      [.print 0 [Str.lit (bytes ":" ++ dec up.port.toNat)]] else []) =
      if up.port ≠ 0 then ch ':' :: dec up.port.toNat else [] := by
    split
    · have hPlain : cstr (bytes ":" ++ dec up.port.toNat) = bytes ":" ++ dec up.port.toNat := by
        apply cstr_of_plain
        rw [List.mem_append, not_or]
        exact ⟨by decide, not_mem_dec (Or.inl (by decide))⟩
      rw [Chunk.outAll_cons, Chunk.outAll_nil, Chunk.out, List.map_singleton, Mem.read_lit, hPlain, hColon]
      simp
    · rfl
  have hParams : ((Params.texts m up.parameters).map fun q => ch ';' :: pairOut q).flatten =
      paramsOut (Params.texts m up.parameters) := by
    rw [paramsOut]
    split
    · rename_i hNone
      rw [hNone]
      rfl
    · rename_i hSome
      exact flatten_out hSome
  have hPairs := @outAll_pairs m
  obtain ⟨proto, user, password, host, port, parameters, headers⟩ := up
  dsimp only at hUser hPort hParams
  cases headers with
  | nil =>
    have hNone : hdrsOut (Params.texts m []) = [] := rfl
    rw [build, Chunk.outAll_append, Chunk.outAll_append, Chunk.outAll_append, Chunk.outAll_append,
      Chunk.outAll_append, hUser, hPort, hPairs ";" (ch ';') (by decide), hParams, textOut, texts,
      Via.placeOut, hNone]
    simp [Chunk.text, Chunk.out, hColon]
  | cons h hs =>
    have hOne := hPairs "?" (ch '?') (by decide) [h]
    have hCons : Params.texts m (h :: hs) = readPair m (h.token, h.value) :: Params.texts m hs := rfl
    rw [List.map_singleton, List.flatten_singleton] at hOne
    have hSome : hdrsOut (Params.texts m (h :: hs)) = Chunk.outAll m.read (buildPair "?" h) ++
        Chunk.outAll m.read (hs.map (buildPair "&")).flatten := by
      rw [hdrsOut, hCons, if_neg (List.cons_ne_nil _ _), out_append, hPairs "&" (ch '&') (by decide), hOne]
      simp [Params.texts]
    rw [build, Chunk.outAll_append, Chunk.outAll_append, Chunk.outAll_append, Chunk.outAll_append,
      Chunk.outAll_append, hUser, hPort, hPairs ";" (ch ';') (by decide), hParams, textOut, texts,
      Via.placeOut, hSome]
    simp [Chunk.text, Chunk.out, hColon]

/-- The text of a built URI is parsed to the same URI. -/
def RoundTrips (m : Mem) (up : Uri) : Prop :=
  Chunk.Writes m up.build fun b => ParsesTo b (up.texts m)

theorem roundTrips_iff (m : Mem) (up : Uri) :
    RoundTrips m up ↔ parseText (textOut (up.texts m)) = some (up.texts m) := by
  rw [RoundTrips, Chunk.writes_iff (plain_build up), outAll_texts, parsesTo_iff]

/-! ## The grammar -/

/-- A URI, by what is before the `@` after its scheme, if there is one, and what follows. -/
inductive Split : Bytes → Option Bytes → Bytes → Prop
  | user {proto userpass b : Bytes} (hProto : ch ':' ∉ proto) (hUser : ch '@' ∉ userpass) :
    Split (proto ++ ch ':' :: (userpass ++ ch '@' :: b)) (some userpass) b
  | bare {proto b : Bytes} (hProto : ch ':' ∉ proto) (hBare : ch '@' ∉ b) :
    Split (proto ++ ch ':' :: b) none b

/-- What follows the user, by the host and port, the parameters and the headers. -/
inductive Spaces : Bytes → Bytes → Bytes → Bytes → Prop
  | plain {pnum : Bytes} (hSemi : ch ';' ∉ pnum) (hMark : ch '?' ∉ pnum) : Spaces pnum pnum [] []
  | headers {pnum hspace : Bytes} (hSemi : ch ';' ∉ pnum) (hMark : ch '?' ∉ pnum)
    (hNone : ch ';' ∉ hspace) : Spaces (pnum ++ ch '?' :: hspace) pnum [] hspace
  | params {pnum pspace : Bytes} (hSemi : ch ';' ∉ pnum) (hMark : ch '?' ∉ pspace) :
    Spaces (pnum ++ ch ';' :: pspace) pnum pspace []
  | both {pnum pspace hspace : Bytes} (hSemi : ch ';' ∉ pnum) (hMark : ch '?' ∉ pspace) :
    Spaces (pnum ++ ch ';' :: (pspace ++ ch '?' :: hspace)) pnum pspace hspace

theorem spaces_iff {b pnum pspace hspace : Bytes} :
    Spaces b pnum pspace hspace ↔ spacesText b = (pnum, pspace, hspace) := by
  constructor
  · intro h
    rw [spacesText]
    cases h with
    | plain hSemi hMark => rw [cut_none hSemi, cut_none hMark]
    | headers hSemi hMark hNone =>
      have hNot : ch ';' ∉ pnum ++ ch '?' :: hspace := by
        rw [List.mem_append, List.mem_cons, not_or, not_or]
        exact ⟨hSemi, by decide, hNone⟩
      rw [cut_none hNot, cut_append hMark]
    | params hSemi hMark => simp only [cut_append hSemi, cut_none hMark]
    | both hSemi hMark => simp only [cut_append hSemi, cut_append hMark]
  · intro h
    rw [spacesText] at h
    obtain ⟨hSemi, hCut⟩ | ⟨a, r, rfl, hSemi, hCut⟩ := cut_cases (ch ';') b
    · obtain ⟨hMark, hCut'⟩ | ⟨a, r, rfl, hMark, hCut'⟩ := cut_cases (ch '?') b
      · rw [hCut, hCut'] at h
        obtain ⟨rfl, rfl, rfl⟩ : b = pnum ∧ [] = pspace ∧ [] = hspace := by simpa using h
        exact .plain hSemi hMark
      · rw [hCut, hCut'] at h
        obtain ⟨rfl, rfl, rfl⟩ : a = pnum ∧ [] = pspace ∧ r = hspace := by simpa using h
        rw [List.mem_append, List.mem_cons, not_or, not_or] at hSemi
        exact .headers hSemi.1 hMark hSemi.2.2
    · obtain ⟨hMark, hCut'⟩ | ⟨a', r, rfl, hMark, hCut'⟩ := cut_cases (ch '?') r
      · simp only [hCut, hCut', Prod.mk.injEq] at h
        obtain ⟨rfl, rfl, rfl⟩ := h
        exact .params hSemi hMark
      · simp only [hCut, hCut', Prod.mk.injEq] at h
        obtain ⟨rfl, rfl, rfl⟩ := h
        exact .both hSemi hMark

/-- The URIs that survive being built: with no user there is no password and no other `@`, with no
parameters no `?` in the host and no `;` in the headers, and neither the parameters nor the headers end
in a blank one. -/
structure Rebuilt (b : Bytes) : Prop where
  user : ∀ userpass r, Split b (some userpass) r → (userpass = [] ∨ userpass.head? = some (ch ':')) →
    (userpass = [] ∨ userpass = [ch ':']) ∧ ch '@' ∉ r
  spaces : ∀ userpass r pnum hspace, Split b userpass r → Spaces r pnum [] hspace →
    ch '?' ∉ pnum ∧ ch ';' ∉ hspace
  params : ∀ userpass r pnum pspace hspace, Split b userpass r → Spaces r pnum pspace hspace →
    ¬ BlankEnd noWs (ch ';') pspace
  headers : ∀ userpass r pnum pspace hspace, Split b userpass r → Spaces r pnum pspace hspace →
    ¬ BlankEnd noWs (ch '&') hspace

theorem Split.unique {b r r' : Bytes} {userpass userpass' : Option Bytes} (h : Split b userpass r)
    (h' : Split b userpass' r') : userpass = userpass' ∧ r = r' := by
  have hCut : ∀ {userpass : Option Bytes} {r : Bytes}, Split b userpass r →
      ((cut (ch ':') b).map fun x => (cut (ch '@') x.2).elim (none, x.2) fun y => (some y.1, y.2)) =
        some (userpass, r) := by
    intro userpass r h
    cases h with
    | user hProto hUser => rw [cut_append hProto, Option.map_some, cut_append hUser]; rfl
    | bare hProto hBare => rw [cut_append hProto, Option.map_some, cut_none hBare]; rfl
  have hSame := hCut h
  rw [hCut h'] at hSame
  exact (Prod.mk.inj (Option.some.inj hSame)).imp Eq.symm Eq.symm

/-! ## What is in a URI -/

/-- A character that is written as it is read in a host and a port. -/
def Letter (c : UInt8) : Prop := ch '9' < c ∧ c ≠ ch ':'

theorem not_mem_portText {c : UInt8} (hc : Letter c) {b : Bytes} {port : UInt32}
    (h : portText b = some port) : c ∉ b := by
  intro hIn
  obtain ⟨r, hLoop, -⟩ := Option.bind_eq_some_iff.mp h
  exact absurd ((Str.atouiLoop_iff.mp hLoop).1 c hIn).2 (UInt8.not_le.mpr hc.1)

theorem count_placeOut {c : UInt8} (hc : Letter c) (host : Bytes) (port : UInt32) :
    (Via.placeOut host port).count c = host.count c := by
  rw [Via.placeOut, List.count_append]
  split
  · rw [List.count_cons_of_ne (Ne.symm hc.2), List.count_eq_zero.mpr (not_mem_dec (Or.inr hc.1))]
    rfl
  · rfl

/-- What is known of a host and a port. -/
theorem placeText_some {pnum host : Bytes} {port : UInt32} (h : placeText pnum = some (host, port)) :
    placeText (Via.placeOut host port) = some (host, port) ∧
      ∀ c, Letter c → host.count c = pnum.count c := by
  have hRead := h
  rw [placeText] at h
  split at h
  · cases h
  · obtain ⟨hNot, hCut⟩ | ⟨a, r, rfl, hFirst, hCut⟩ := cut_cases (ch ':') pnum
    · rw [hCut] at h
      obtain ⟨rfl, rfl⟩ := Prod.mk.inj (Option.some.inj h)
      exact ⟨by rw [show Via.placeOut pnum 0 = pnum from List.append_nil _, hRead], fun _ _ => rfl⟩
    · rw [hCut] at h
      dsimp only at h
      obtain ⟨p, hPort, hIs⟩ := Option.map_eq_some_iff.mp h
      obtain ⟨rfl, rfl⟩ := Prod.mk.inj hIs
      obtain ⟨hNonzero, hAgain⟩ := portText_some hPort
      constructor
      · rw [Via.placeOut, if_pos hNonzero, placeText, if_neg (by simp), cut_append hFirst]
        dsimp only
        rw [hAgain, Option.map_some]
      · intro c hc
        rw [List.count_append, List.count_cons_of_ne (Ne.symm hc.2),
          List.count_eq_zero.mpr (not_mem_portText hc hPort), Nat.add_zero]

theorem count_out {dlm c : UInt8} (hDlm : dlm ≠ c) (hEq : ch '=' ≠ c) (qs : List (Bytes × Bytes)) :
    (out dlm qs).count c = countIn c qs := by
  cases qs with
  | nil => rfl
  | cons q qs =>
    rw [← countIn_out hDlm hEq, flatten_out (List.cons_ne_nil q qs), List.count_cons_of_ne hDlm]

theorem count_paramsOut {c : UInt8} (hDlm : ch ';' ≠ c) (hEq : ch '=' ≠ c) (qs : List (Bytes × Bytes)) :
    (paramsOut qs).count c = countIn c qs := by
  rw [paramsOut]
  split
  · rename_i hNone
    rw [hNone]
    rfl
  · rw [List.count_cons_of_ne hDlm, count_out hDlm hEq]

theorem count_hdrsOut {c : UInt8} (hDlm : ch '&' ≠ c) (hEq : ch '=' ≠ c) (hMark : ch '?' ≠ c)
    (qs : List (Bytes × Bytes)) : (hdrsOut qs).count c = countIn c qs := by
  rw [hdrsOut]
  split
  · rename_i hNone
    rw [hNone]
    rfl
  · rw [List.count_cons_of_ne hMark, count_out hDlm hEq]

theorem letter_at : Letter (ch '@') := ⟨by decide, by decide⟩

theorem letter_semi : Letter (ch ';') := ⟨by decide, by decide⟩

theorem letter_mark : Letter (ch '?') := ⟨by decide, by decide⟩

/-- The `@`s of what follows the user are in the host, the parameters and the headers. -/
theorem count_spaces {b pnum pspace hspace host : Bytes} {port : UInt32}
    (h : Spaces b pnum pspace hspace) (hPlace : placeText pnum = some (host, port)) :
    host.count (ch '@') + (countIn (ch '@') (parsed noWs (ch ';') pspace) +
      countIn (ch '@') (parsed noWs (ch '&') hspace)) = b.count (ch '@') := by
  have hSemi : ch ';' ≠ ch '@' := by decide
  have hMark : ch '?' ≠ ch '@' := by decide
  rw [(placeText_some hPlace).2 _ letter_at, countIn_parsed rfl (by decide) (by decide),
    countIn_parsed rfl (by decide) (by decide)]
  cases h with
  | plain => simp
  | headers => simp [List.count_cons_of_ne hMark]
  | params => simp [List.count_cons_of_ne hSemi]
  | both => simp [List.count_cons_of_ne hSemi, List.count_cons_of_ne hMark]

/-! ## What is read again -/

/-- A user and a password by the text before the `@`. -/
inductive UserOf : Option Bytes → Bytes → Bytes → Prop
  | none : UserOf none [] []
  | bare {user : Bytes} (hAt : ch '@' ∉ user) (hColon : ch ':' ∉ user) : UserOf (some user) user []
  | both {user password : Bytes} (hAt : ch '@' ∉ user ++ ch ':' :: password) (hColon : ch ':' ∉ user) :
    UserOf (some (user ++ ch ':' :: password)) user password

/-- What is known of an accepted URI. -/
theorem parseText_some {b : Bytes} {t : UriText} (h : parseText b = some t) :
    ∃ userpass r pnum pspace hspace, Split b userpass r ∧ UserOf userpass t.user t.password ∧
      Spaces r pnum pspace hspace ∧ placeText pnum = some (t.host, t.port) ∧ ch ':' ∉ t.proto ∧
      t.parameters = parsed noWs (ch ';') pspace ∧ t.headers = parsed noWs (ch '&') hspace := by
  rw [parseText] at h
  obtain ⟨⟨proto, iup⟩, hProto, hTail⟩ := Option.bind_eq_some_iff.mp h
  obtain ⟨⟨host, port⟩, hPlace, hOut⟩ := Option.bind_eq_some_iff.mp hTail
  obtain rfl := Option.some.inj hOut
  have hSpaces : Spaces (userText iup).2.2 _ _ _ := spaces_iff.mpr rfl
  obtain ⟨-, hCut⟩ | ⟨proto', iup', rfl, hFirst, hCut⟩ := cut_cases (ch ':') b
  · rw [hCut] at hProto
    cases hProto
  · rw [hCut] at hProto
    obtain ⟨rfl, rfl⟩ := Prod.mk.inj (Option.some.inj hProto)
    obtain ⟨hBare, hUser⟩ | ⟨userpass, r, rfl, hAt, hUser⟩ := cut_cases (ch '@') iup'
    · simp only [userText, hUser] at hSpaces hPlace ⊢
      exact ⟨_, _, _, _, _, .bare hFirst hBare, .none, hSpaces, hPlace, hFirst, rfl, rfl⟩
    · obtain ⟨hColon, hPassword⟩ | ⟨user, password, rfl, hColon, hPassword⟩ :=
        cut_cases (ch ':') userpass
      · simp only [userText, hUser, hPassword] at hSpaces hPlace ⊢
        exact ⟨_, _, _, _, _, .user hFirst hAt, .bare hAt hColon, hSpaces, hPlace, hFirst, rfl, rfl⟩
      · simp only [userText, hUser, hPassword] at hSpaces hPlace ⊢
        exact ⟨_, _, _, _, _, .user hFirst hAt, .both hAt hColon, hSpaces, hPlace, hFirst, rfl, rfl⟩

theorem UserOf.plain {userpass : Option Bytes} {user password : Bytes} (h : UserOf userpass user password) :
    ch '@' ∉ user ∧ ch ':' ∉ user ∧ ch '@' ∉ password := by
  cases h with
  | none => exact ⟨List.not_mem_nil, List.not_mem_nil, List.not_mem_nil⟩
  | bare hAt hColon => exact ⟨hAt, hColon, List.not_mem_nil⟩
  | both hAt hColon =>
    rw [List.mem_append, List.mem_cons, not_or, not_or] at hAt
    exact ⟨hAt.1, hColon, hAt.2.2⟩

/-- A user is read as it was written. -/
theorem userText_userOut {user password r : Bytes} (hSome : user ≠ []) (hAt : ch '@' ∉ user)
    (hColon : ch ':' ∉ user) (hPassword : ch '@' ∉ password) :
    userText (userOut user password ++ r) = (user, password, r) := by
  rw [userOut, if_neg hSome]
  split
  · rename_i hNone
    have hParts : user ++ ([] ++ [ch '@']) ++ r = user ++ ch '@' :: r := by simp
    rw [hParts, userText, cut_append hAt]
    dsimp only
    rw [cut_none hColon, hNone]
  · have hParts : user ++ (ch ':' :: password ++ [ch '@']) ++ r =
        (user ++ ch ':' :: password) ++ ch '@' :: r := by simp
    have hNot : ch '@' ∉ user ++ ch ':' :: password := by
      rw [List.mem_append, List.mem_cons, not_or, not_or]
      exact ⟨hAt, by decide, hPassword⟩
    rw [hParts, userText, cut_append hNot]
    dsimp only
    rw [cut_append hColon]

/-- The host, the port, the parameters and the headers as they are written. -/
def bodyOut (t : UriText) : Bytes :=
  Via.placeOut t.host t.port ++ (paramsOut t.parameters ++ hdrsOut t.headers)

theorem count_bodyOut (t : UriText) : (bodyOut t).count (ch '@') =
    t.host.count (ch '@') + (countIn (ch '@') t.parameters + countIn (ch '@') t.headers) := by
  rw [bodyOut, List.count_append, List.count_append, count_placeOut letter_at,
    count_paramsOut (by decide) (by decide), count_hdrsOut (by decide) (by decide) (by decide)]

/-- Without a user, what is read again has none and no password, and no `@` was written. -/
theorem no_at_of_read {t : UriText} (hProto : ch ':' ∉ t.proto) (hNone : t.user = [])
    (h : parseText (textOut t) = some t) : t.password = [] ∧ ch '@' ∉ bodyOut t := by
  have hOut : textOut t = t.proto ++ ch ':' :: bodyOut t := by
    rw [textOut, hNone]
    rfl
  obtain ⟨userpass, r, pnum, pspace, hspace, hSplit, hUser, hSpaces, hPlace, -, hParams, hHdrs⟩ :=
    parseText_some h
  have hCount := count_spaces hSpaces hPlace
  rw [← hParams, ← hHdrs, ← count_bodyOut] at hCount
  rw [hOut] at hSplit
  obtain ⟨hBare, -⟩ | ⟨up, z, hIs, hAt, -⟩ := cut_cases (ch '@') (bodyOut t)
  · obtain ⟨rfl, -⟩ := hSplit.unique (.bare hProto hBare)
    generalize t.user = user, t.password = password at hUser ⊢
    cases hUser
    exact ⟨rfl, hBare⟩
  · rw [hIs] at hSplit hCount
    obtain ⟨-, rfl⟩ := hSplit.unique (.user hProto hAt)
    rw [List.count_append, List.count_cons_self] at hCount
    omega

/-- What follows the user is read as it was written, the lists as they are then. -/
theorem spaces_bodyOut {t : UriText} (hSemi : ch ';' ∉ Via.placeOut t.host t.port)
    (hParams : ch '?' ∉ paramsOut t.parameters)
    (hAlone : t.parameters = [] → ch '?' ∉ Via.placeOut t.host t.port ∧ ch ';' ∉ hdrsOut t.headers) :
    Spaces (bodyOut t) (Via.placeOut t.host t.port) (out (ch ';') t.parameters)
      (out (ch '&') t.headers) := by
  rw [bodyOut]
  generalize Via.placeOut t.host t.port = place, t.parameters = parameters, t.headers = headers at *
  cases parameters with
  | nil =>
    obtain ⟨hMark, hHdrs⟩ := hAlone rfl
    cases headers with
    | nil =>
      rw [paramsOut, if_pos rfl, hdrsOut, if_pos rfl, List.append_nil, List.append_nil]
      exact .plain hSemi hMark
    | cons h hs =>
      rw [hdrsOut, if_neg (List.cons_ne_nil h hs)] at hHdrs
      rw [paramsOut, if_pos rfl, hdrsOut, if_neg (List.cons_ne_nil h hs), List.nil_append]
      exact .headers hSemi hMark (List.not_mem_of_not_mem_cons hHdrs)
  | cons q qs =>
    rw [paramsOut, if_neg (List.cons_ne_nil q qs)] at hParams ⊢
    have hNone := List.not_mem_of_not_mem_cons hParams
    cases headers with
    | nil =>
      rw [hdrsOut, if_pos rfl, List.append_nil]
      exact .params hSemi hNone
    | cons h hs =>
      rw [hdrsOut, if_neg (List.cons_ne_nil h hs)]
      exact .both hSemi hNone

/-- Without parameters, what is read again has no `?` in the host and no `;` in the headers. -/
theorem alone_of_read {t : UriText} (hSemi : ch ';' ∉ Via.placeOut t.host t.port) (hNone : t.parameters = [])
    {pnum pspace hspace : Bytes} (hSpaces : Spaces (bodyOut t) pnum pspace hspace)
    (hPlace : placeText pnum = some (t.host, t.port))
    (hParams : t.parameters = parsed noWs (ch ';') pspace)
    (hHdrs : t.headers = parsed noWs (ch '&') hspace) :
    ch '?' ∉ t.host ∧ ch ';' ∉ hdrsOut t.headers := by
  have hEmpty : pspace = [] := parsed_eq_nil.mp (hParams.symm.trans hNone)
  have hBody : bodyOut t = Via.placeOut t.host t.port ++ hdrsOut t.headers := by
    rw [bodyOut, paramsOut, if_pos hNone, List.nil_append]
  have hCount : (bodyOut t).count (ch ';') = hspace.count (ch ';') := by
    rw [hBody, List.count_append, List.count_eq_zero.mpr hSemi,
      count_hdrsOut (by decide) (by decide) (by decide), hHdrs, countIn_parsed rfl (by decide) (by decide),
      Nat.zero_add]
  have hHost : ch '?' ∉ pnum → ch '?' ∉ t.host := by
    intro hNot
    rw [← List.count_eq_zero, (placeText_some hPlace).2 _ letter_mark, List.count_eq_zero]
    exact hNot
  have hHdrsIn : ch ';' ∉ bodyOut t → ch ';' ∉ hdrsOut t.headers := by
    intro hNot hIn
    rw [hBody] at hNot
    exact hNot (List.mem_append_right _ hIn)
  generalize bodyOut t = b at hSpaces hCount hHdrsIn
  cases hSpaces with
  | plain hNot hMark => exact ⟨hHost hMark, hHdrsIn hNot⟩
  | headers hNot hMark hAfter =>
    refine ⟨hHost hMark, hHdrsIn ?_⟩
    rw [List.mem_append, List.mem_cons, not_or, not_or]
    exact ⟨hNot, by decide, hAfter⟩
  | params =>
    rw [hEmpty, List.count_append, List.count_cons_self, List.count_nil] at hCount
    omega
  | both =>
    have hMark : ch '?' ≠ ch ';' := by decide
    rw [List.count_append, List.count_cons_self, List.count_append, List.count_cons_of_ne hMark] at hCount
    omega

/-- What is read again once the user is. -/
theorem parseText_textOut {t : UriText} (hProto : ch ':' ∉ t.proto)
    (hUser : userText (userOut t.user t.password ++ bodyOut t) = (t.user, t.password, bodyOut t))
    {pnum pspace hspace : Bytes} (hSpaces : Spaces (bodyOut t) pnum pspace hspace) :
    parseText (textOut t) = (placeText pnum).map fun place => { t with
      host := place.1, port := place.2, parameters := parsed noWs (ch ';') pspace
      headers := parsed noWs (ch '&') hspace } := by
  have hOut : textOut t = t.proto ++ ch ':' :: (userOut t.user t.password ++ bodyOut t) := rfl
  rw [hOut, parseText, cut_append hProto]
  simp only [Option.bind_eq_bind, Option.bind_some, hUser, spaces_iff.mp hSpaces]
  cases placeText pnum <;> rfl

theorem userText_alone {t : UriText} (h : t.password = [] ∧ ch '@' ∉ bodyOut t) (hNone : t.user = []) :
    userText (userOut t.user t.password ++ bodyOut t) = (t.user, t.password, bodyOut t) := by
  rw [userOut, if_pos hNone, List.nil_append, userText, cut_none h.2, hNone, h.1]

theorem userText_textOut {t : UriText} {userpass : Option Bytes} (hUser : UserOf userpass t.user t.password)
    (h : t.user = [] → t.password = [] ∧ ch '@' ∉ bodyOut t) :
    userText (userOut t.user t.password ++ bodyOut t) = (t.user, t.password, bodyOut t) := by
  obtain ⟨hAt, hColon, hPassword⟩ := hUser.plain
  cases Decidable.em (t.user = []) with
  | inl hNone => exact userText_alone (h hNone) hNone
  | inr hSome => exact userText_userOut hSome hAt hColon hPassword

theorem Spaces.kept {b pnum pspace hspace : Bytes} (h : Spaces b pnum pspace hspace) :
    ch ';' ∉ pnum ∧ ch '?' ∉ pspace := by
  cases h with
  | plain hSemi hMark => exact ⟨hSemi, List.not_mem_nil⟩
  | headers hSemi => exact ⟨hSemi, List.not_mem_nil⟩
  | params hSemi hMark => exact ⟨hSemi, hMark⟩
  | both hSemi hMark => exact ⟨hSemi, hMark⟩

/-- What an accepted URI needs to be read as it was written. -/
theorem parseText_textOut_iff {t : UriText} {userpass : Option Bytes} {r pnum pspace hspace : Bytes}
    (hProto : ch ':' ∉ t.proto) (hUser : UserOf userpass t.user t.password)
    (hSpaces : Spaces r pnum pspace hspace) (hPlace : placeText pnum = some (t.host, t.port))
    (hParams : t.parameters = parsed noWs (ch ';') pspace)
    (hHdrs : t.headers = parsed noWs (ch '&') hspace) :
    parseText (textOut t) = some t ↔ (t.user = [] → t.password = [] ∧ ch '@' ∉ r) ∧
      (pspace = [] → ch '?' ∉ pnum ∧ ch ';' ∉ hspace) ∧ ¬ BlankEnd noWs (ch ';') pspace ∧
        ¬ BlankEnd noWs (ch '&') hspace := by
  obtain ⟨hAgain, hCount⟩ := placeText_some hPlace
  obtain ⟨hSemi, hMark⟩ := hSpaces.kept
  have hAt : ch '@' ∉ bodyOut t ↔ ch '@' ∉ r := by
    rw [← List.count_eq_zero, ← List.count_eq_zero, count_bodyOut, hParams, hHdrs,
      count_spaces hSpaces hPlace]
  have hHost : ∀ c, Letter c → (c ∉ Via.placeOut t.host t.port ↔ c ∉ pnum) := by
    intro c hc
    rw [← List.count_eq_zero, count_placeOut hc, hCount c hc, List.count_eq_zero]
  have hHdrsOut : ch ';' ∉ hdrsOut t.headers ↔ ch ';' ∉ hspace := by
    rw [← List.count_eq_zero, count_hdrsOut (by decide) (by decide) (by decide), hHdrs,
      countIn_parsed rfl (by decide) (by decide), List.count_eq_zero]
  have hParamsOut : ch '?' ∉ paramsOut t.parameters := by
    rw [← List.count_eq_zero, count_paramsOut (by decide) (by decide), hParams,
      countIn_parsed rfl (by decide) (by decide), List.count_eq_zero]
    exact hMark
  have hNone : t.parameters = [] ↔ pspace = [] := by rw [hParams, parsed_eq_nil]
  have hOutSemi := (hHost _ letter_semi).mpr hSemi
  have hBack : ∀ hUserText : userText (userOut t.user t.password ++ bodyOut t) =
      (t.user, t.password, bodyOut t), (pspace = [] → ch '?' ∉ pnum ∧ ch ';' ∉ hspace) →
      (parseText (textOut t) = some t ↔ ¬ BlankEnd noWs (ch ';') pspace ∧
        ¬ BlankEnd noWs (ch '&') hspace) := by
    intro hUserText hAlone
    have hOut := spaces_bodyOut hOutSemi hParamsOut fun hNil => by
      rw [hHost _ letter_mark, hHdrsOut]
      exact hAlone (hNone.mp hNil)
    rw [parseText_textOut hProto hUserText hOut, hAgain, Option.map_some, Option.some.injEq,
      ← parsed_out_iff rfl rfl (by decide), ← parsed_out_iff rfl rfl (by decide), ← hParams, ← hHdrs]
    constructor
    · intro h
      exact ⟨congrArg UriText.parameters h, congrArg UriText.headers h⟩
    · rintro ⟨hSameParams, hSameHdrs⟩
      rw [hSameParams, hSameHdrs]
  constructor
  · intro h
    have hUserAlone := fun hNil => no_at_of_read hProto hNil h
    have hUserText := userText_textOut hUser hUserAlone
    have hAlone : pspace = [] → ch '?' ∉ pnum ∧ ch ';' ∉ hspace := by
      intro hNil
      have hRead : Spaces (bodyOut t) _ _ _ := spaces_iff.mpr rfl
      have hWhole := h
      rw [parseText_textOut hProto hUserText hRead, Option.map_eq_some_iff] at hWhole
      obtain ⟨place, hIs, hSame⟩ := hWhole
      have hPlaceSame : place = (t.host, t.port) :=
        Prod.ext (congrArg UriText.host hSame) (congrArg UriText.port hSame)
      rw [hPlaceSame] at hIs
      obtain ⟨hMarkHost, hSemiHdrs⟩ := alone_of_read hOutSemi (hNone.mpr hNil) hRead hIs
        (congrArg UriText.parameters hSame).symm (congrArg UriText.headers hSame).symm
      rw [← List.count_eq_zero, hCount _ letter_mark, List.count_eq_zero] at hMarkHost
      exact ⟨hMarkHost, hHdrsOut.mp hSemiHdrs⟩
    exact ⟨fun hNil => (hUserAlone hNil).imp_right hAt.mp, hAlone, (hBack hUserText hAlone).mp h⟩
  · rintro ⟨hUserAlone, hAlone, hBlank⟩
    exact (hBack (userText_textOut hUser fun hNil => (hUserAlone hNil).imp_right hAt.mpr) hAlone).mpr hBlank

theorem rebuilt_iff {b r pnum pspace hspace : Bytes} {userpass : Option Bytes} {t : UriText}
    (hSplit : Split b userpass r) (hUser : UserOf userpass t.user t.password)
    (hSpaces : Spaces r pnum pspace hspace) :
    Rebuilt b ↔ (t.user = [] → t.password = [] ∧ ch '@' ∉ r) ∧
      (pspace = [] → ch '?' ∉ pnum ∧ ch ';' ∉ hspace) ∧ ¬ BlankEnd noWs (ch ';') pspace ∧
        ¬ BlankEnd noWs (ch '&') hspace := by
  have hHead : ∀ {user : Bytes}, ch ':' ∉ user → user.head? ≠ some (ch ':') := fun hNot hHead =>
    hNot (List.mem_of_head? hHead)
  have hSame : ∀ {up r' pnum' pspace' hspace'}, Split b up r' → Spaces r' pnum' pspace' hspace' →
      r' = r ∧ pnum' = pnum ∧ pspace' = pspace ∧ hspace' = hspace := by
    intro up r' pnum' pspace' hspace' hSplit' hSpaces'
    obtain ⟨-, rfl⟩ := hSplit.unique hSplit'
    have hText := spaces_iff.mp hSpaces
    rw [spaces_iff.mp hSpaces'] at hText
    obtain ⟨hPnum, hRest⟩ := Prod.mk.inj hText
    exact ⟨rfl, hPnum, Prod.mk.inj hRest⟩
  constructor
  · intro h
    refine ⟨?_, ?_, h.params _ _ _ _ _ hSplit hSpaces, h.headers _ _ _ _ _ hSplit hSpaces⟩
    · generalize t.user = user, t.password = password at hUser
      cases hUser with
      | none =>
        cases hSplit with
        | bare hProto hBare => exact fun _ => ⟨rfl, hBare⟩
      | bare hAt hColon => exact fun hNil => ⟨rfl, (h.user _ _ hSplit (Or.inl hNil)).2⟩
      | both hAt hColon =>
        rintro rfl
        obtain ⟨hEmpty, hBare⟩ := h.user _ _ hSplit (Or.inr rfl)
        refine ⟨?_, hBare⟩
        simpa using hEmpty
    · rintro rfl
      exact h.spaces _ _ _ _ hSplit hSpaces
  · rintro ⟨hAlone, hNone, hParams, hHdrs⟩
    constructor
    · intro up r' hSplit' hEmpty
      obtain ⟨rfl, rfl⟩ := hSplit.unique hSplit'
      generalize t.user = user, t.password = password at hUser hAlone
      cases hUser with
      | bare hAt hColon =>
        have hNil := hEmpty.resolve_right (hHead hColon)
        exact ⟨Or.inl hNil, (hAlone hNil).2⟩
      | both hAt hColon =>
        have hNil : user = [] := by
          cases user with
          | nil => rfl
          | cons c cs =>
            rw [List.cons_append, List.head?_cons, Option.some.injEq] at hEmpty
            exact absurd (List.mem_cons.mpr (Or.inl (hEmpty.resolve_left nofun).symm)) hColon
        obtain ⟨rfl, hBare⟩ := hAlone hNil
        rw [hNil]
        exact ⟨Or.inr rfl, hBare⟩
    · intro up r' pnum' hspace' hSplit' hSpaces'
      obtain ⟨-, rfl, hNil, rfl⟩ := hSame hSplit' hSpaces'
      exact hNone hNil.symm
    · intro up r' pnum' pspace' hspace' hSplit' hSpaces'
      obtain ⟨-, -, rfl, -⟩ := hSame hSplit' hSpaces'
      exact hParams
    · intro up r' pnum' pspace' hspace' hSplit' hSpaces'
      obtain ⟨-, -, -, rfl⟩ := hSame hSplit' hSpaces'
      exact hHdrs

/-- The text of an accepted URI is parsed to the same if and only if its empty parts stay apart and
neither its parameters nor its headers end in a blank one. -/
theorem rebuilt_of_text {b : Bytes} {t : UriText} (hText : parseText b = some t) :
    parseText (textOut t) = some t ↔ Rebuilt b := by
  obtain ⟨userpass, r, pnum, pspace, hspace, hSplit, hUser, hSpaces, hPlace, hProto, hParams, hHdrs⟩ :=
    parseText_some hText
  rw [parseText_textOut_iff hProto hUser hSpaces hPlace hParams hHdrs, rebuilt_iff hSplit hUser hSpaces]

/-- A URI is built and parsed to the same if and only if its empty parts stay apart and neither its
parameters nor its headers end in a blank one. -/
theorem uri_round_trip {m : Mem} {surip : Str} {up : Uri} {hp hp' : Heap}
    (hRun : (parse m surip).run hp = some (.ok up, hp')) :
    RoundTrips (hp'.mem m) up ↔ Rebuilt ((hp.mem m).read surip) := by
  rw [parse_eq] at hRun
  obtain ⟨hMem, hParts⟩ := paramsParser_ok hRun
  have hText := read_parseParts (hp.mem m) surip
  rw [hParts, Option.map_some] at hText
  rw [roundTrips_iff, hMem, rebuilt_of_text hText.symm]

/-- A URI with all its parts. -/
theorem roundTrips_whole : ∃ up hp',
    (parse (fun _ => .zero) (Str.lit (bytes "sip:u:p@h:5060;a=b;c?d=e"))).run { tsize := sizeof 3 } =
      some (.ok up, hp') ∧ up.RoundTrips (hp'.mem fun _ => .zero) := by
  have hText : parseText (bytes "sip:u:p@h:5060;a=b;c?d=e") = some ⟨bytes "sip", bytes "u", bytes "p",
      bytes "h", 5060, [(bytes "a", bytes "b"), (bytes "c", [])], [(bytes "d", bytes "e")]⟩ := by
    decide +kernel
  obtain ⟨up, hp', hRun, -⟩ := parsesTo_iff.mpr hText (fun _ => .zero) _ (room_fresh sized 3)
  refine ⟨up, hp', hRun, (uri_round_trip hRun).mpr ?_⟩
  rw [Mem.read_lit]
  exact (rebuilt_of_text hText).mp (by decide +kernel)

/-- A password without a user is not written. -/
theorem not_roundTrips_password : ¬ ∀ (m : Mem) (surip : Str) (up : Uri) (hp hp' : Heap),
    (parse m surip).run hp = some (.ok up, hp') → up.RoundTrips (hp'.mem m) := by
  intro hAll
  have hText : parseText (bytes "sip::pw@h") = some ⟨bytes "sip", [], bytes "pw", bytes "h", 0, [], []⟩ := by
    decide +kernel
  obtain ⟨up, hp', hRun, hIs⟩ := parsesTo_iff.mpr hText (fun _ => .zero) _ (room_fresh sized 0)
  have hBack := hAll _ _ _ _ _ hRun
  rw [roundTrips_iff, hIs] at hBack
  exact absurd hBack (by decide +kernel)

end Uri

end Microsippy
