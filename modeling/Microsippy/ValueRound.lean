import Microsippy.ViaStack

/-! # Header values built again

Which name-addr and Via values are parsed to the same after `usipy_sip_hdr_nameaddr_build` and
`usipy_sip_hdr_via_build` have written them.
-/

namespace Microsippy

set_option autoImplicit false

namespace Via

open Params

/-- A host and its port as they are written. -/
def placeOut (host : Bytes) (port : UInt32) : Bytes :=
  host ++ if port ≠ 0 then ch ':' :: dec port.toNat else []

/-- What the builder writes. -/
def textOut (t : ViaText) : Bytes :=
  t.name ++ ch '/' :: (t.version ++ ch '/' :: (t.transport ++ ch ' ' ::
    (placeOut t.host t.port ++ (t.params.map fun q => ch ';' :: pairOut q).flatten)))

theorem plain_build (vp : Via) : ∀ c ∈ vp.build 0, c.plain = true := by
  rw [build]
  refine List.forall_mem_append.mpr ⟨List.forall_mem_append.mpr ⟨?_, ?_⟩, NameAddr.plain_params _⟩
  · simp [Chunk.plain]
  · split <;> simp [Chunk.plain]

theorem outAll_texts (m : Mem) (vp : Via) :
    Chunk.outAll m.read (vp.build 0) = textOut (vp.texts m) := by
  have hSlash : bytes "/" = [ch '/'] := by decide
  have hSpace : bytes " " = [ch ' '] := by decide
  have hColon : bytes ":" = [ch ':'] := by decide
  have hPort : cstr (dec vp.port.toNat) = dec vp.port.toNat :=
    cstr_of_plain (not_mem_dec (Or.inl (by decide)))
  rw [build, Chunk.outAll_append, Chunk.outAll_append, NameAddr.outAll_params, NameAddr.paramsText_eq,
    textOut, placeOut, texts]
  split <;> simp [Chunk.out, hSlash, hSpace, hColon, hPort]

/-- The text of a built value is parsed to the same value, whatever is on the stack. -/
def RoundTrips (m : Mem) (vp : Via) : Prop :=
  Chunk.Writes m (vp.build 0) fun b => ParsesTo b (vp.texts m)

theorem roundTrips_iff (m : Mem) (vp : Via) :
    RoundTrips m vp ↔ ∀ stack, parseText stack (textOut (vp.texts m)) = some (vp.texts m) := by
  rw [RoundTrips, Chunk.writes_iff (plain_build vp), outAll_texts, parsesTo_iff]

/-! ## Places -/

/-- What is known of a place that is written again. -/
structure PlaceKept (host : Bytes) (port : UInt32) : Prop where
  semi : ch ';' ∉ placeOut host port
  left : (placeOut host port).dropWhile Str.isLws = placeOut host port
  read : placeText (placeOut host port) = some (host, port)

theorem isLws_colon : Str.isLws (ch ':') = false := by decide

theorem placeKept_of_text {sent_by host : Bytes} {port : UInt32} (hSemi : ch ';' ∉ sent_by)
    (hLeft : sent_by.dropWhile Str.isLws = sent_by) (h : placeText sent_by = some (host, port)) :
    PlaceKept host port ∧ (sent_by.rdropWhile Str.isLws = sent_by →
      (placeOut host port).rdropWhile Str.isLws = placeOut host port) := by
  have hRead := h
  rw [placeText] at h
  split at h
  · cases h
  · obtain ⟨hNot, hCut⟩ | ⟨a, r, rfl, hFirst, hCut⟩ := cut_cases (ch ':') sent_by
    · rw [hCut] at h
      obtain ⟨rfl, rfl⟩ := Prod.mk.inj (Option.some.inj h)
      have hOut : placeOut sent_by 0 = sent_by := List.append_nil _
      exact ⟨⟨by rwa [hOut], by rw [hOut, hLeft], by rw [hOut, hRead]⟩, fun hRight => by rw [hOut, hRight]⟩
    · rw [hCut] at h
      dsimp only at h
      obtain ⟨p, hPort, hIs⟩ := Option.map_eq_some_iff.mp h
      obtain ⟨rfl, rfl⟩ := Prod.mk.inj hIs
      obtain ⟨hNonzero, hAgain⟩ := portText_some hPort
      have hOut : placeOut (a.rdropWhile Str.isLws) p =
          a.rdropWhile Str.isLws ++ ch ':' :: dec p.toNat := by rw [placeOut, if_pos hNonzero]
      have hHost : ch ':' ∉ a.rdropWhile Str.isLws := fun hIn => hFirst (Trim.mem_of_rdropWhile hIn)
      have hDigits : (dec p.toNat).rdropWhile Str.isLws = dec p.toNat := by
        rw [List.rdropWhile_eq_self_iff]
        intro hSome
        exact Bool.eq_false_iff.mp (isLws_dec _ (List.getLast_mem hSome))
      have hDigits' : (dec p.toNat).dropWhile Str.isLws = dec p.toNat := by
        cases hDec : dec p.toNat with
        | nil => rfl
        | cons c cs =>
          have hPlain : Str.isLws c = false := isLws_dec c (by rw [hDec]; exact List.mem_cons_self)
          exact List.dropWhile_cons_of_neg (Bool.eq_false_iff.mp hPlain)
      rw [Trim.dropWhile_append_cons isLws_colon, List.append_cancel_right_eq] at hLeft
      refine ⟨⟨?_, ?_, ?_⟩, fun _ => ?_⟩
      · rw [hOut, List.mem_append, List.mem_cons, not_or, not_or]
        exact ⟨fun hIn => hSemi (List.mem_append_left _ (Trim.mem_of_rdropWhile hIn)), by decide,
          not_mem_dec (Or.inr (by decide))⟩
      · rw [hOut, Trim.dropWhile_append_cons isLws_colon, ← Trim.trim_comm, hLeft]
      · rw [hOut, placeText, if_neg (by simp), cut_append hHost]
        dsimp only
        rw [hDigits', hAgain, Option.map_some, List.rdropWhile_idempotent]
      · rw [hOut, Trim.rdropWhile_append_cons isLws_colon, hDigits]

/-! ## Values built again -/

/-- What is known of an accepted value. -/
structure HeadKept (t : ViaText) : Prop where
  name : ch '/' ∉ t.name
  name_right : t.name.rdropWhile Str.isLws = t.name
  version : ch '/' ∉ t.version
  version_left : t.version.dropWhile Str.isLws = t.version
  version_right : t.version.rdropWhile Str.isLws = t.version
  transport : t.transport ≠ []
  transport_plain : ∀ c ∈ t.transport, Str.isLws c = false

/-- A value whose place is followed by a `;`, white space and `r`. -/
def Listed (r b : Bytes) : Prop :=
  r.dropWhile Str.isLws = r ∧ ∃ sent_by w, Headed (sent_by ++ ch ';' :: (w ++ r)) b ∧ ch ';' ∉ sent_by ∧
    ∀ c ∈ w, Str.isLws c = true

/-- A value that survives being built: it has parameters, and no blank one at its end. -/
def Rebuilt (b : Bytes) : Prop := ∃ r, Listed r b ∧ r ≠ [] ∧ ¬ BlankEnd Str.isLws (ch ';') r

theorem Headed.unique {s4 s4' b : Bytes} (h : Headed s4 b) (h' : Headed s4' b) : s4 = s4' := by
  obtain ⟨name, version, transport, hHead⟩ := h.headText
  obtain ⟨name', version', transport', hHead'⟩ := h'.headText
  rw [hHead] at hHead'
  simp only [Option.some.injEq, Prod.mk.injEq] at hHead'
  exact hHead'.2.2.2

theorem Listed.unique {r r' b : Bytes} (h : Listed r b) (h' : Listed r' b) : r = r' := by
  obtain ⟨hTrimmed, sent_by, w, hHeaded, hSemi, hw⟩ := h
  obtain ⟨hTrimmed', sent_by', w', hHeaded', hSemi', hw'⟩ := h'
  have hCut := cut_append (b := w ++ r) hSemi
  rw [hHeaded.unique hHeaded', cut_append hSemi'] at hCut
  have hRest := congrArg (List.dropWhile Str.isLws) (Prod.mk.inj (Option.some.inj hCut)).2
  rw [List.dropWhile_append_of_pos hw, List.dropWhile_append_of_pos hw', hTrimmed, hTrimmed'] at hRest
  exact hRest.symm

theorem rebuilt_iff {r b : Bytes} (h : Listed r b) :
    Rebuilt b ↔ r ≠ [] ∧ ¬ BlankEnd Str.isLws (ch ';') r := by
  constructor
  · rintro ⟨r', hListed, hEnd⟩
    rwa [h.unique hListed]
  · exact fun hEnd => ⟨r, h, hEnd⟩

theorem not_rebuilt_of_bare {b : Bytes} (h : Bare b) : ¬ Rebuilt b := by
  rintro ⟨r, ⟨-, sent_by, w, hHeaded, -⟩, -⟩
  obtain ⟨s4, hHeaded', hNot, -⟩ := h
  rw [hHeaded'.unique hHeaded] at hNot
  simp at hNot

/-- The ways a value is accepted: with a `;` after its place, or bare. -/
theorem parseText_some {stack b : Bytes} {t : ViaText} (h : parseText stack b = some t) :
    HeadKept t ∧ PlaceKept t.host t.port ∧
      ((∃ r, Listed r b ∧ t.params = parsed Str.isLws (ch ';') r ∧
        (placeOut t.host t.port).rdropWhile Str.isLws = placeOut t.host t.port) ∨ Bare b) := by
  rw [parseText] at h
  obtain ⟨⟨name, version, transport, s4⟩, hHead, hTail⟩ := Option.bind_eq_some_iff.mp h
  obtain ⟨⟨host, port⟩, hPlace, hOut⟩ := Option.bind_eq_some_iff.mp hTail
  obtain rfl := Option.some.inj hOut
  obtain ⟨hHeaded, hName, hNameRight, hVersion, hVersionLeft, hVersionRight, hTransport, hPlain, hLeft⟩ :=
    headText_some hHead
  refine ⟨⟨hName, hNameRight, hVersion, hVersionLeft, hVersionRight, hTransport, hPlain⟩, ?_⟩
  obtain ⟨hNot, hCut⟩ | ⟨a, r, rfl, hFirst, hCut⟩ := cut_cases (ch ';') s4
  · simp only [hCut] at hPlace
    refine ⟨(placeKept_of_text hNot hLeft hPlace).1, Or.inr ⟨s4, hHeaded, hNot, place_iff.mp ?_⟩⟩
    rw [hPlace, Option.isSome_some]
  · rw [Trim.dropWhile_append_cons (by decide), List.append_cancel_right_eq] at hLeft
    simp only [hCut] at hPlace
    obtain ⟨hKept, hRight⟩ := placeKept_of_text (fun hIn => hFirst (Trim.mem_of_rdropWhile hIn))
      (by rw [← Trim.trim_comm, hLeft]) hPlace
    refine ⟨hKept, Or.inl ⟨r.dropWhile Str.isLws, ⟨List.dropWhile_idempotent _ _, a,
      r.takeWhile Str.isLws, ?_, hFirst, fun c hc => List.mem_takeWhile_imp hc⟩, ?_,
      hRight (List.rdropWhile_idempotent _ _)⟩⟩
    · rwa [List.takeWhile_append_dropWhile]
    · simp only [hCut]

/-- A text written from parts that are told apart, over a stack. -/
theorem parseText_textOut {t : ViaText} (hHead : HeadKept t) (hPlace : PlaceKept t.host t.port)
    (hRight : t.params ≠ [] →
      (placeOut t.host t.port).rdropWhile Str.isLws = placeOut t.host t.port) (stack : Bytes) :
    parseText stack (textOut t) = some { t with
      params := if t.params = [] then parsed Str.isLws (ch ';') stack
        else parsed Str.isLws (ch ';') ((out (ch ';') t.params).dropWhile Str.isLws) } := by
  obtain ⟨name, version, transport, host, port, params⟩ := t
  have hRest := headText_append (r := placeOut host port ++
    (params.map fun q => ch ';' :: pairOut q).flatten) hHead.name hHead.version
    (List.forall_mem_nil _) hHead.transport hHead.transport_plain (show Str.isLws (ch ' ') = true by decide)
  dsimp only at hHead hPlace hRight hRest
  rw [List.nil_append, hHead.name_right, hHead.version_left, hHead.version_right] at hRest
  rw [parseText, textOut]
  dsimp only
  rw [hRest]
  simp only [Option.bind_eq_bind, Option.bind_some]
  cases params with
  | nil =>
    rw [List.map_nil, List.flatten_nil, List.append_nil, hPlace.left, spaceText, cut_none hPlace.semi]
    dsimp only
    rw [hPlace.read, if_pos rfl]
    rfl
  | cons q qs =>
    rw [flatten_out (List.cons_ne_nil q qs), Trim.dropWhile_append_cons (by decide), hPlace.left,
      spaceText, cut_append hPlace.semi]
    dsimp only
    rw [hRight (List.cons_ne_nil q qs), hPlace.read, if_neg (List.cons_ne_nil q qs)]
    rfl

theorem params_eq_iff {t : ViaText} {ps : List (Bytes × Bytes)} :
    some { t with params := ps } = some t ↔ ps = t.params := by
  rw [Option.some.injEq, ViaText.mk.injEq]
  exact ⟨fun h => h.2.2.2.2.2, fun h => ⟨rfl, rfl, rfl, rfl, rfl, h⟩⟩

/-- Without parameters a value is read back with those on the stack. -/
theorem lost_of_none {t : ViaText} (hHead : HeadKept t) (hPlace : PlaceKept t.host t.port)
    (hNone : t.params = []) : ¬ ∀ stack, parseText stack (textOut t) = some t := by
  intro h
  have hOne := h (bytes "x")
  rw [parseText_textOut hHead hPlace (fun hSome => absurd hNone hSome), params_eq_iff, if_pos hNone,
    hNone] at hOne
  exact absurd hOne (by decide)

/-- A value written again is read back on every stack when it has parameters and none is blank at the
end. -/
theorem parseText_textOut_iff {t : ViaText} {r : Bytes} (hHead : HeadKept t)
    (hPlace : PlaceKept t.host t.port)
    (hRight : (placeOut t.host t.port).rdropWhile Str.isLws = placeOut t.host t.port)
    (hTrimmed : r.dropWhile Str.isLws = r) (hParams : t.params = parsed Str.isLws (ch ';') r) :
    (∀ stack, parseText stack (textOut t) = some t) ↔ r ≠ [] ∧ ¬ BlankEnd Str.isLws (ch ';') r := by
  cases Decidable.em (r = []) with
  | inl hNone =>
    have hNil : t.params = [] := by rw [hParams, hNone, parsed_nil]
    constructor
    · exact fun h => absurd h (lost_of_none hHead hPlace hNil)
    · exact fun h => absurd hNone h.1
  | inr hSome =>
    have hParamsSome : t.params ≠ [] := by rwa [hParams, Ne, parsed_eq_nil]
    simp only [parseText_textOut hHead hPlace fun _ => hRight, params_eq_iff, if_neg hParamsSome]
    rw [hParams, dropWhile_out NameAddr.isLws_eq NameAddr.isLws_semi r hTrimmed,
      parsed_out_iff NameAddr.isLws_eq NameAddr.isLws_semi (by decide)]
    exact ⟨fun h => ⟨hSome, h []⟩, fun h _ => h.2⟩

theorem parse_text {stack : Str} {m : Mem} {hvp : Str} {vp : Via} {hp hp' : Heap}
    (hRun : (parse stack m hvp).run hp = some (.ok vp, hp')) :
    hp'.mem = hp.mem ∧
      parseText ((hp.mem m).read stack) ((hp.mem m).read hvp) = some (vp.texts (hp.mem m)) := by
  obtain ⟨hMem, hParts⟩ := parse_ok hRun
  refine ⟨hMem, ?_⟩
  rw [← read_parseParts, hParts, Option.map_some]

/-- A Via value survives being built, over any stacks, if and only if it has parameters and none is
blank at the end. -/
theorem survives_iff {stack : Str} {m : Mem} {hvp : Str} {vp : Via} {hp hp' : Heap}
    (hRun : (parse stack m hvp).run hp = some (.ok vp, hp')) :
    (∀ stack vp hp', (parse stack m hvp).run hp = some (.ok vp, hp') → RoundTrips (hp'.mem m) vp) ↔
      Rebuilt ((hp.mem m).read hvp) := by
  constructor
  · intro h
    obtain ⟨hMem, hText⟩ := parse_text hRun
    obtain ⟨hHead, hPlace, ⟨r, hListed, hParams, hRight⟩ | hBare⟩ := parseText_some hText
    · have hBack := h stack vp hp' hRun
      rw [roundTrips_iff, hMem, parseText_textOut_iff hHead hPlace hRight hListed.1 hParams] at hBack
      exact (rebuilt_iff hListed).mpr hBack
    · obtain ⟨t, hClean, hNone⟩ := parseText_bare hBare []
      rw [← Mem.read_null (hp.mem m), ← read_parseParts] at hClean
      obtain ⟨vp₀, hParts, rfl⟩ := Option.map_eq_some_iff.mp hClean
      have hNil : vp₀.params = [] := List.map_eq_nil_iff.mp hNone
      obtain ⟨hp₀, hRun₀⟩ := @paramsParser_none sizeof _ (parseParts stack) Via.params
        (parseParts Str.null) m hvp vp vp₀ hp hp' hRun hParts hNil
      obtain ⟨hMem₀, hText₀⟩ := parse_text hRun₀
      obtain ⟨hHead₀, hPlace₀, -⟩ := parseText_some hText₀
      have hBack := h _ vp₀ hp₀ hRun₀
      rw [roundTrips_iff, hMem₀] at hBack
      exact absurd hBack (lost_of_none hHead₀ hPlace₀ hNone)
  · intro hRebuilt stack vp hp' hRun
    obtain ⟨hMem, hText⟩ := parse_text hRun
    obtain ⟨hHead, hPlace, ⟨r, hListed, hParams, hRight⟩ | hBare⟩ := parseText_some hText
    · rw [roundTrips_iff, hMem, parseText_textOut_iff hHead hPlace hRight hListed.1 hParams]
      exact (rebuilt_iff hListed).mp hRebuilt
    · exact absurd hRebuilt (not_rebuilt_of_bare hBare)

end Via

/-! ## Both kinds of values -/

/-- A name-addr value is built and parsed to the same if and only if it ends in no blank parameter
and, where it has no `<`, its address has no `>` and no white space at its ends. A Via value is if and
only if it has parameters and ends in no blank one. -/
theorem values_round_trip (m : Mem) (hvp : Str) (hp : Heap) :
    (∀ (nap : NameAddr) (hp' : Heap), (NameAddr.parse m hvp).run hp = some (.ok nap, hp') →
      (nap.RoundTrips (hp'.mem m) ↔ NameAddr.Rebuilt ((hp.mem m).read hvp))) ∧
    ∀ (stack : Str) (vp : Via) (hp' : Heap), (Via.parse stack m hvp).run hp = some (.ok vp, hp') →
      ((∀ stack vp hp', (Via.parse stack m hvp).run hp = some (.ok vp, hp') →
          vp.RoundTrips (hp'.mem m)) ↔
        Via.Rebuilt ((hp.mem m).read hvp)) :=
  ⟨fun _ _ hRun => NameAddr.roundTrips_iff_rebuilt hRun, fun _ _ _ hRun => Via.survives_iff hRun⟩

/-- A From with a tag and a Via with a branch. -/
theorem values_round_trip_tagged :
    (∃ nap hp', (NameAddr.parse (fun _ => .zero) (Str.lit (bytes "<sip:a@b>;tag=1"))).run
      { tsize := NameAddr.sizeof 1 } = some (.ok nap, hp') ∧ nap.RoundTrips (hp'.mem fun _ => .zero)) ∧
    ∃ vp hp', (Via.parse Str.null (fun _ => .zero) (Str.lit (bytes "SIP/2.0/UDP h;branch=z"))).run
      { tsize := Via.sizeof 1 } = some (.ok vp, hp') ∧ vp.RoundTrips (hp'.mem fun _ => .zero) := by
  have hEnd : ∀ b : Bytes, (Params.parsed Str.isLws (ch ';') b).getLast? ≠ some ([], []) →
      ¬ Params.BlankEnd Str.isLws (ch ';') b := fun b h hBlank =>
    h ((Params.getLast?_parsed (by decide) (by decide) (by decide)).mpr hBlank)
  constructor
  · have hParses : NameAddr.ParsesTo (bytes "<sip:a@b>;tag=1")
        ⟨[], bytes "sip:a@b", [(bytes "tag", bytes "1")]⟩ :=
      NameAddr.parsesTo_iff.mpr (by decide +kernel)
    obtain ⟨nap, hp', hRun, -⟩ := hParses (fun _ => .zero) _ (room_fresh NameAddr.sized 1)
    refine ⟨nap, hp', hRun, ((values_round_trip _ _ _).1 _ _ hRun).mpr ?_⟩
    rw [Mem.read_lit]
    exact ⟨hEnd _ (by decide +kernel), fun hNot => absurd (by decide +kernel) hNot⟩
  · have hText : ∀ stack, Via.parseText stack (bytes "SIP/2.0/UDP h;branch=z") =
        some ⟨bytes "SIP", bytes "2.0", bytes "UDP", bytes "h", 0, [(bytes "branch", bytes "z")]⟩ := by
      intro stack
      rfl
    obtain ⟨vp, hp', hRun, -⟩ := Via.parsesTo_iff.mpr hText Str.null (fun _ => .zero) _
      (room_fresh Via.sized 1)
    have hSurvives := ((values_round_trip _ _ _).2 _ _ _ hRun).mpr ?_
    · exact ⟨vp, hp', hRun, hSurvives _ _ _ hRun⟩
    · rw [Mem.read_lit]
      have hValue : bytes "SIP/2.0/UDP h;branch=z" =
          bytes "SIP" ++ ch '/' :: (bytes "2.0" ++ ch '/' :: ([] ++ (bytes "UDP" ++ ch ' ' ::
            ([] ++ (bytes "h" ++ ch ';' :: ([] ++ bytes "branch=z")))))) := by decide +kernel
      refine ⟨bytes "branch=z", ⟨by decide +kernel, bytes "h", [], ?_, by decide +kernel,
        List.forall_mem_nil _⟩, by decide +kernel, hEnd _ (by decide +kernel)⟩
      rw [hValue]
      exact .mk (by decide +kernel) (by decide +kernel) (List.forall_mem_nil _) (by decide +kernel)
        (by decide +kernel) (by decide) (List.forall_mem_nil _) (by decide +kernel)

/-- An empty last parameter is written as a `;` that nothing follows, which is refused. -/
theorem values_lost : ¬ ((∀ (m : Mem) (hvp : Str) (nap : NameAddr) (hp hp' : Heap),
      (NameAddr.parse m hvp).run hp = some (.ok nap, hp') → nap.RoundTrips (hp'.mem m)) ∧
    ∀ (stack : Str) (m : Mem) (hvp : Str) (vp : Via) (hp hp' : Heap),
      (Via.parse stack m hvp).run hp = some (.ok vp, hp') → vp.RoundTrips (hp'.mem m)) := by
  rintro ⟨hAll, -⟩
  have hParses : NameAddr.ParsesTo (bytes "<sip:a@b>;;") ⟨[], bytes "sip:a@b", [([], [])]⟩ :=
    NameAddr.parsesTo_iff.mpr (by decide +kernel)
  obtain ⟨nap, hp', hRun, hIs⟩ := hParses (fun _ => .zero) _ (room_fresh NameAddr.sized 1)
  have hBack := hAll _ _ _ _ _ hRun
  rw [NameAddr.roundTrips_iff, hIs] at hBack
  exact absurd hBack (by decide +kernel)

end Microsippy
