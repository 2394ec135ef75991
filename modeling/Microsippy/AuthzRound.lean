import Microsippy.AuthzAnswer

/-! # Credentials read back

When `usipy_sip_hdr_auth_parse` returns what `usipy_sip_hdr_authz_build` printed of the credentials
`gen_auth_hf` answers a challenge with.
-/

namespace Microsippy

set_option autoImplicit false

/-! ## Reading it back -/

namespace AuthzText

open AuthField

theorem length_joined {fs : List AuthField} (hNames : ∀ f ∈ fs, NameOk f.name) :
    3 * fs.length ≤ (joined fs).length := by
  induction fs with
  | nil => exact Nat.le_refl _
  | cons f fs ih =>
    rw [List.forall_mem_cons] at hNames
    obtain ⟨c, t, hName, -, -⟩ := hNames.1.begins
    have hRest := ih hNames.2
    rw [joined_cons, hName]
    simp only [List.length_cons, List.length_append] at hRest ⊢
    omega

/-- What `gen_auth_hf` always has of a header. -/
structure Wellformed (t : AuthzText) : Prop where
  scheme : t.scheme = bytes "Digest"
  realm : t.realm ≠ []
  nonce : t.nonce ≠ []
  algorithm : t.algorithm ≠ [] → 0 ∉ t.algorithm ∧ BareValue t.algorithm
  nc : t.qop ≠ [] → t.nc ≠ []

theorem Wellformed.bare_some {t : AuthzText} (h : t.Wellformed) :
    ∀ f ∈ t.fields, f.quote = false → f.value ≠ [] := by
  have hNc := h.nc
  rw [fields]
  split_ifs <;> simp_all

theorem Wellformed.last_ok {t : AuthzText} (h : t.Wellformed) :
    ∀ f, t.fields.getLast? = some f → f.quote = false → f.Ok := by
  have hAlgorithm := h.algorithm
  rw [fields]
  split_ifs <;> simp_all
  exact ⟨hAlgorithm.1, (fun hNot => by cases hNot), fun _ => hAlgorithm.2⟩

/-- Printed credentials are parsed to themselves if and only if each field is well printed. -/
theorem parsesTo_iff {t : AuthzText} (h : t.Wellformed) :
    Auth.ParsesTo t.out t.parsed ↔ ∀ f ∈ t.fields, f.Ok := by
  have hNames : ∀ f ∈ t.fields, NameOk f.name := fun f hf => nameOk_of_mem (names_fields t f hf)
  have hLength := length_joined hNames
  have hSome : 5 ≤ t.fields.length := by
    rw [fields]
    simp only [List.length_append, List.length_cons]
    omega
  have hDrop : (joined t.fields).tail = (joined t.fields).dropWhile Auth.isDelim := rfl
  have hTail : (joined t.fields).tail.length + 1 = (joined t.fields).length := by
    rw [List.length_tail]
    omega
  have hPairs : Auth.pairTexts (joined t.fields).tail.length (joined t.fields).tail =
      Auth.pairTexts (joined t.fields).tail.length (joined t.fields) := by
    rw [hDrop, Auth.pairTexts_dropDelims]
  have hFull := full_fields h.realm h.nonce
  have hScheme : ∀ c ∈ t.scheme, Str.isLws c = false := by rw [h.scheme]; decide +kernel
  have hNamed : t.scheme ≠ [] := by rw [h.scheme]; decide +kernel
  have hBody : (joined t.fields).tail.dropWhile Str.isLws = (joined t.fields).tail := rfl
  rw [Auth.parsesTo_iff, out, Auth.parseText_append hScheme, if_neg hNamed, hBody, hPairs,
    ← assignAll_fields, Option.map_eq_some_iff]
  constructor
  · rintro ⟨ps, hRead, hSame⟩
    exact Auth.ok_of_pairTexts hNames h.bare_some h.last_ok (by omega) hRead hFull hSame
  · intro hOk
    exact ⟨_, Auth.pairTexts_ok hNames hOk (by omega), rfl⟩

end AuthzText

/-! ## When credentials come back -/

namespace Authz

open AuthField

/-- Values that can be printed as `usipy_sip_hdr_authz_build` quotes them. -/
structure Printable (challenge : AuthText) (username uri qop : Bytes) : Prop where
  noNul : ∀ v ∈ [username, challenge.realm, challenge.nonce, uri, challenge.opaque_, qop], 0 ∉ v
  noQuote : ∀ v ∈ [challenge.realm, challenge.nonce, challenge.opaque_], ch '"' ∉ v
  qop : qop ≠ [] → qop.head? ≠ some (ch '"') ∧ qop.rdropWhile Str.isLws = qop

theorem quoted_ok_iff {n v : Bytes} : AuthField.Ok ⟨n, v, true⟩ ↔ 0 ∉ v ∧ ch '"' ∉ v :=
  ⟨fun h => ⟨h.noNul, h.quoted rfl⟩, fun h => ⟨h.1, fun _ => h.2, fun hNot => by cases hNot⟩⟩

theorem bare_ok_iff {n v : Bytes} : AuthField.Ok ⟨n, v, false⟩ ↔ 0 ∉ v ∧ BareValue v :=
  ⟨fun h => ⟨h.noNul, h.bare rfl⟩, fun h => ⟨h.1, (fun hNot => by cases hNot), fun _ => h.2⟩⟩

theorem forall_mem_ite {α : Type} {P : α → Prop} {p : Prop} [Decidable p] {l : List α} :
    (∀ x ∈ (if p then l else []), P x) ↔ (p → ∀ x ∈ l, P x) := by
  split
  · rename_i h
    exact ⟨fun hAll _ => hAll, fun hAll => hAll h⟩
  · rename_i h
    exact ⟨fun _ hp => absurd hp h, fun _ => List.forall_mem_nil _⟩

theorem fields_ok (t : AuthzText) : (∀ f ∈ t.fields, f.Ok) ↔
    ((0 ∉ t.username ∧ ch '"' ∉ t.username) ∧ (0 ∉ t.realm ∧ ch '"' ∉ t.realm) ∧
      (0 ∉ t.nonce ∧ ch '"' ∉ t.nonce) ∧ (0 ∉ t.uri ∧ ch '"' ∉ t.uri) ∧
      (0 ∉ t.response ∧ ch '"' ∉ t.response)) ∧
    (t.algorithm ≠ [] → 0 ∉ t.algorithm ∧ BareValue t.algorithm) ∧
    (t.qop ≠ [] → (0 ∉ t.qop ∧ BareValue t.qop) ∧ (0 ∉ t.nc ∧ BareValue t.nc) ∧
      (0 ∉ t.cnonce ∧ ch '"' ∉ t.cnonce)) ∧
    (t.opaque_ ≠ [] → 0 ∉ t.opaque_ ∧ ch '"' ∉ t.opaque_) := by
  simp only [AuthzText.fields, List.forall_mem_append, List.forall_mem_cons, forall_mem_ite,
    quoted_ok_iff, bare_ok_iff, List.not_mem_nil, false_implies, implies_true, and_true, and_assoc]

/-- The fields of an answer are well printed if and only if what the challenge and the caller give is
printable. -/
theorem fields_ok_iff {md5 : Md5} {cnonce : Bytes} {challenge : AuthText}
    {username password method uri body qop : Bytes}
    (hAlgorithm : challenge.algorithm ≠ [] → 0 ∉ challenge.algorithm ∧ BareValue challenge.algorithm)
    (hCnonce : ∀ c ∈ cnonce, plainByte c = true) (hQop : qop ≠ [] → 0 ∉ qop → QopToken qop)
    (hUsername : ch '"' ∉ username) (hUri : ch '"' ∉ uri) :
    (∀ f ∈ (answer md5 cnonce challenge username password method uri body qop).fields, f.Ok) ↔
      Printable challenge username uri qop := by
  have hPlain : ∀ {v : Bytes}, (∀ c ∈ v, plainByte c = true) → 0 ∉ v ∧ ch '"' ∉ v := by
    intro v hv
    cases v with
    | nil => exact ⟨List.not_mem_nil, List.not_mem_nil⟩
    | cons c v =>
      obtain ⟨hNul, hQuote, -⟩ := bare_of_plain (List.cons_ne_nil c v) hv
      exact ⟨hNul, hQuote⟩
  have hNc : 0 ∉ ncText ∧ BareValue ncText := by
    obtain ⟨hNul, -, hBare⟩ := bare_of_plain (v := ncText) (by decide +kernel) (by decide +kernel)
    exact ⟨hNul, hBare⟩
  have hCnonceOk : ∀ p : Prop, ∀ _ : Decidable p, 0 ∉ (if p then cnonce else []) ∧
      ch '"' ∉ (if p then cnonce else []) := by
    intro p _
    split
    · exact hPlain hCnonce
    · exact ⟨List.not_mem_nil, List.not_mem_nil⟩
  rw [fields_ok]
  simp only [answer]
  constructor
  · rintro ⟨⟨hUser, hRealm, hNonce, hUriOk, -⟩, -, hQopOk, hOpaqueOk⟩
    have hOpaque : 0 ∉ challenge.opaque_ ∧ ch '"' ∉ challenge.opaque_ := by
      cases Decidable.em (challenge.opaque_ = []) with
      | inl hNone => rw [hNone]; exact ⟨List.not_mem_nil, List.not_mem_nil⟩
      | inr hSome => exact hOpaqueOk hSome
    refine ⟨?_, ?_, fun hSome => ?_⟩
    · simp only [List.forall_mem_cons]
      refine ⟨hUser.1, hRealm.1, hNonce.1, hUriOk.1, hOpaque.1, ?_, List.forall_mem_nil _⟩
      cases Decidable.em (qop = []) with
      | inl hNone => rw [hNone]; exact List.not_mem_nil
      | inr hSome => exact (hQopOk hSome).1.1
    · simp only [List.forall_mem_cons]
      exact ⟨hRealm.2, hNonce.2, hOpaque.2, List.forall_mem_nil _⟩
    · obtain ⟨-, hBare⟩ := (hQopOk hSome).1
      obtain ⟨c, t, rfl, -, hNot⟩ := hBare.begins
      exact ⟨fun hIs => hNot (Option.some.inj hIs), hBare.ends⟩
  · intro h
    have hNuls := h.noNul
    have hQuotes := h.noQuote
    simp only [List.forall_mem_cons] at hNuls hQuotes
    obtain ⟨hUser, hRealm, hNonce, hUriNul, hOpaque, hQopNul, -⟩ := hNuls
    obtain ⟨hRealmQ, hNonceQ, hOpaqueQ, -⟩ := hQuotes
    refine ⟨⟨⟨hUser, hUsername⟩, ⟨hRealm, hRealmQ⟩, ⟨hNonce, hNonceQ⟩, ⟨hUriNul, hUri⟩,
      hPlain (plain_responseText md5 _ _ _ _ _)⟩, hAlgorithm, fun hSome => ?_,
      fun _ => ⟨hOpaque, hOpaqueQ⟩⟩
    have hToken := hQop hSome hQopNul
    obtain ⟨hHead, hEnds⟩ := h.qop hSome
    rw [if_pos hSome]
    refine ⟨⟨hQopNul, ?_, hEnds, hToken.noComma⟩, hNc, hCnonceOk _ _⟩
    obtain ⟨c, t, rfl⟩ := List.exists_cons_of_ne_nil hSome
    have hNot := List.head?_dropWhile_not Str.isWs (c :: t)
    rw [hToken.begins] at hNot
    exact ⟨c, t, rfl, hNot, fun hIs => hHead (by rw [hIs]; rfl)⟩

/-- The text of credentials, in a buffer that takes it, is parsed to the same credentials. -/
def RoundTrips (m : Mem) (azp : Authz) : Prop :=
  ∃ n, ∀ (cap : Nat) (b : Arena), n < cap → ∃ b',
    Chunk.run (fun _ => m.read) 0 cap (azp.build 0) b 0 = (some n, b') ∧
      Auth.ParsesTo (b'.readAt 0 n) (azp.texts m).parsed

theorem roundTrips_iff (m : Mem) (azp : Authz) :
    RoundTrips m azp ↔ Auth.ParsesTo (azp.texts m).out (azp.texts m).parsed := by
  rw [← outAll_build]
  exact Chunk.writes_iff (P := fun b => Auth.ParsesTo b (azp.texts m).parsed) (plain_build azp)

theorem Accepts.wellformed {md5 : Md5} {cnonce : Bytes} {m : Mem} {challenge : Auth} {qop : Option Str}
    (h : Accepts m challenge qop) (username password method uri body used : Bytes) :
    (answer md5 cnonce (challenge.texts m) username password method uri body used).Wellformed where
  scheme := rfl
  realm := h.realm
  nonce := h.nonce
  algorithm := h.algorithm_bare
  nc hSome := by
    have hUsed : used ≠ [] := hSome
    show (if used ≠ [] then ncText else []) ≠ []
    rw [if_pos hUsed]
    decide

section

variable {md5 : Md5} {now : Option UInt32} {m : Mem} {challenge : Auth}
  {username password method uri : Str} {body qop : Option Str} {azp : Authz} {hp hp' : Heap}

/-- Credentials come back if and only if each of their fields is well printed. -/
theorem roundTrips_iff_fields
    (hSettled : ∀ s ∈ [username, challenge.realm, challenge.nonce, uri, challenge.algorithm,
      challenge.opaque_, usedQop challenge qop], hp.Settled s)
    (hRun : (genAuthHf md5 now m challenge username password method uri body qop).run hp =
      some (.ok azp, hp')) :
    RoundTrips (hp'.mem m) azp ↔ ∀ f ∈ (azp.texts (hp'.mem m)).fields, f.Ok := by
  obtain ⟨hAccepts, cnonce, -, hTexts⟩ := genAuthHf_ok hSettled hRun
  rw [roundTrips_iff, hTexts]
  exact AuthzText.parsesTo_iff (hAccepts.wellformed _ _ _ _ _ _)

theorem printable_iff
    (hSettled : ∀ s ∈ [username, challenge.realm, challenge.nonce, uri, challenge.algorithm,
      challenge.opaque_, usedQop challenge qop], hp.Settled s)
    (hRun : (genAuthHf md5 now m challenge username password method uri body qop).run hp =
      some (.ok azp, hp'))
    (hUsername : ch '"' ∉ (hp.mem m).read username) (hUri : ch '"' ∉ (hp.mem m).read uri) :
    (∀ f ∈ (azp.texts (hp'.mem m)).fields, f.Ok) ↔
      Printable (challenge.texts (hp.mem m)) ((hp.mem m).read username)
        ((hp.mem m).read uri) ((hp.mem m).read (usedQop challenge qop)) := by
  obtain ⟨hAccepts, cnonce, hCnonce, hTexts⟩ := genAuthHf_ok hSettled hRun
  rw [hTexts]
  exact fields_ok_iff hAccepts.algorithm_bare (plain_cnonceAt hCnonce)
    (fun hSome hPlain => token_of_supported hPlain (hAccepts.supported hSome)) hUsername hUri

/-- The header that answers a challenge is parsed to what was generated if and only if no value has a
NUL, none of those taken from the challenge has a double quote, and the `qop` neither begins with one
nor ends in white space. -/
theorem genAuthHf_roundTrips_iff
    (hSettled : ∀ s ∈ [username, challenge.realm, challenge.nonce, uri, challenge.algorithm,
      challenge.opaque_, usedQop challenge qop], hp.Settled s)
    (hRun : (genAuthHf md5 now m challenge username password method uri body qop).run hp =
      some (.ok azp, hp'))
    (hUsername : ch '"' ∉ (hp.mem m).read username) (hUri : ch '"' ∉ (hp.mem m).read uri) :
    RoundTrips (hp'.mem m) azp ↔ Printable (challenge.texts (hp.mem m)) ((hp.mem m).read username)
      ((hp.mem m).read uri) ((hp.mem m).read (usedQop challenge qop)) :=
  (roundTrips_iff_fields hSettled hRun).trans (printable_iff hSettled hRun hUsername hUri)

end

/-! ## Two challenges -/

/-- A heap of its own. -/
def plainHeap : Heap := { tsize := 1024 }

theorem settled_plainHeap (s : Str) : plainHeap.Settled s := by
  intro i hi hSlot
  cases hSlot

/-- A challenge parsed and answered. -/
def answerTo (now : Option UInt32) (text : Bytes) : Option (Auth × Heap × Authz × Heap) := do
  let (r, hp₁) ← Op.run (Auth.parse (fun _ => .zero) (Str.lit text)) plainHeap
  let challenge ← r.toOption
  let (a, hp₂) ← Op.run (genAuthHf (fun _ _ => 0) now (fun _ => .zero) challenge
    (Str.lit (bytes "bob")) (Str.lit (bytes "secret")) (Str.lit (bytes "INVITE"))
    (Str.lit (bytes "sip:b")) none none) plainHeap
  let azp ← a.toOption
  return (challenge, hp₁, azp, hp₂)

theorem answerTo_some {now : Option UInt32} {text : Bytes} {challenge : Auth} {hp₁ hp₂ : Heap} {azp : Authz}
    (h : answerTo now text = some (challenge, hp₁, azp, hp₂)) :
    (Auth.parse (fun _ => .zero) (Str.lit text)).run plainHeap = some (.ok challenge, hp₁) ∧
      (genAuthHf (fun _ _ => 0) now (fun _ => .zero) challenge (Str.lit (bytes "bob"))
        (Str.lit (bytes "secret")) (Str.lit (bytes "INVITE")) (Str.lit (bytes "sip:b")) none none).run
          plainHeap = some (.ok azp, hp₂) := by
  obtain ⟨⟨r, hp₃⟩, hParse, h⟩ := Option.bind_eq_some_iff.mp h
  obtain ⟨c, hOk, h⟩ := Option.bind_eq_some_iff.mp h
  obtain ⟨⟨a, hp₄⟩, hGen, h⟩ := Option.bind_eq_some_iff.mp h
  obtain ⟨z, hMade, h⟩ := Option.bind_eq_some_iff.mp h
  obtain ⟨rfl, rfl, rfl, rfl⟩ : c = challenge ∧ hp₃ = hp₁ ∧ z = azp ∧ hp₄ = hp₂ := by
    simpa using h
  cases r with
  | error e => cases hOk
  | ok c' =>
    obtain rfl := Option.some.inj hOk
    cases a with
    | error e => cases hMade
    | ok z' =>
      obtain rfl := Option.some.inj hMade
      exact ⟨hParse, hGen⟩

/-- A challenge without a `qop` whose values can be printed. -/
def plainChallenge (c : Auth) : Bool :=
  let t := c.texts fun _ => .zero
  decide ((∀ v ∈ [bytes "bob", t.realm, t.nonce, bytes "sip:b", t.opaque_, []], 0 ∉ v) ∧
    (∀ v ∈ [t.realm, t.nonce, t.opaque_], ch '"' ∉ v) ∧ c.qop.l = 0)

theorem printable_of_plain {c : Auth} (h : plainChallenge c = true) :
    usedQop c none = Str.null ∧
      Printable (c.texts fun _ => .zero) (bytes "bob") (bytes "sip:b") [] := by
  obtain ⟨hNul, hQuote, hNone⟩ := of_decide_eq_true h
  exact ⟨if_neg (not_not.mpr hNone), hNul, hQuote, fun hSome => absurd rfl hSome⟩

/-- A plain challenge, whose answer comes back. -/
theorem genAuthHf_roundTrips_plain : ∃ challenge hp₁ azp hp₂,
    answerTo none (bytes "Digest realm=\"a\",nonce=\"n\"") = some (challenge, hp₁, azp, hp₂) ∧
      RoundTrips (hp₂.mem fun _ => .zero) azp := by
  have hTest : (answerTo none (bytes "Digest realm=\"a\",nonce=\"n\"")).any
      (fun x : Auth × Heap × Authz × Heap => plainChallenge x.1) = true := by
    decide +kernel
  obtain ⟨⟨challenge, hp₁, azp, hp₂⟩, hAnswer, hPlain⟩ := (Option.any_eq_true _ _).mp hTest
  obtain ⟨-, hGen⟩ := answerTo_some hAnswer
  obtain ⟨hUsed, hPrintable⟩ := printable_of_plain hPlain
  refine ⟨challenge, hp₁, azp, hp₂, hAnswer, (genAuthHf_roundTrips_iff
    (fun s _ => settled_plainHeap s) hGen (by decide) (by decide)).mpr ?_⟩
  rw [hUsed]
  exact hPrintable

/-- A bare realm with a double quote in it is printed between double quotes. -/
theorem bareRealm_lost : ¬ ∀ (md5 : Md5) (now : Option UInt32) (m : Mem) (text : Str) (challenge : Auth)
    (username password method uri : Str) (body qop : Option Str) (azp : Authz) (hp₀ hp₁ hp hp' : Heap),
    (Auth.parse m text).run hp₀ = some (.ok challenge, hp₁) →
    (∀ s ∈ [username, challenge.realm, challenge.nonce, uri, challenge.algorithm,
      challenge.opaque_, usedQop challenge qop], hp.Settled s) →
    (genAuthHf md5 now m challenge username password method uri body qop).run hp = some (.ok azp, hp') →
    ch '"' ∉ (hp.mem m).read username → ch '"' ∉ (hp.mem m).read password →
    ch '"' ∉ (hp.mem m).read uri → RoundTrips (hp'.mem m) azp := by
  intro hAll
  have hTest : (answerTo none (bytes "Digest realm=a\"b,nonce=n")).any (fun x =>
      decide (ch '"' ∈ (x.2.2.1.texts (x.2.2.2.mem fun _ => .zero)).realm)) = true := by
    decide +kernel
  obtain ⟨⟨challenge, hp₁, azp, hp₂⟩, hAnswer, hQuote⟩ := (Option.any_eq_true _ _).mp hTest
  obtain ⟨hParse, hGen⟩ := answerTo_some hAnswer
  have hBack := hAll _ _ _ _ _ _ _ _ _ _ _ _ _ _ _ _ hParse (fun s _ => settled_plainHeap s) hGen
    (by decide) (by decide) (by decide)
  have hOk := (roundTrips_iff_fields (fun s _ => settled_plainHeap s) hGen).mp hBack
  exact ((fields_ok _).mp hOk).1.2.1.2 (of_decide_eq_true hQuote)

end Authz

end Microsippy
