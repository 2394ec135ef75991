import Microsippy.AuthzRound

/-! # Digests recomputed

A verifier knows the password, the method and the body, and reads everything else from the header that
was sent.
-/

namespace Microsippy

set_option autoImplicit false

/-! ## The verifier -/

namespace AuthText

/-- The value of a parameter. -/
def param (t : AuthText) (name : String) : Option Bytes :=
  (t.params.find? fun p => p.1 == bytes name).map Prod.snd

end AuthText

/-- `H`, in hexadecimal. -/
def digestOf (md5 : Md5) (b : Bytes) : Bytes := Authz.md5Format (md5 b)

/-- Texts with a colon between them. -/
def colons (parts : List Bytes) : Bytes := List.intercalate (bytes ":") parts

/-- `A1`. The `cnonce` is needed when the algorithm is `MD5-sess`. -/
def digestA1 (md5 : Md5) (password : Bytes) (t : AuthText) : Option Bytes := do
  let username ← t.param "username"
  let secret := colons [username, t.realm, password]
  if CiEq t.algorithm (bytes "MD5-sess") then
    let cnonce ← t.param "cnonce"
    return colons [digestOf md5 secret, t.nonce, cnonce]
  else return secret

/-- `A2`. The body counts when the `qop` is `auth-int`. -/
def digestA2 (md5 : Md5) (method body : Bytes) (t : AuthText) : Option Bytes := do
  let uri ← t.param "uri"
  if CiEq t.qop (bytes "auth-int") then return colons [method, uri, digestOf md5 body]
  else return colons [method, uri]

/-- The digest a verifier computes of a header, `none` when the header lacks what it takes. -/
def requestDigest (md5 : Md5) (password method body : Bytes) (t : AuthText) : Option Bytes := do
  let a1 ← digestA1 md5 password t
  let a2 ← digestA2 md5 method body t
  if t.qop = [] then return digestOf md5 (colons [digestOf md5 a1, t.nonce, digestOf md5 a2])
  else
    let nc ← t.param "nc"
    let cnonce ← t.param "cnonce"
    return digestOf md5 (colons [digestOf md5 a1, t.nonce, nc, cnonce, t.qop, digestOf md5 a2])

/-! ## The digest of an answer -/

theorem casecmpEq_of_ciEq {a b : Bytes} (h : CiEq a b) : casecmpEq a b = true := by
  induction a generalizing b with
  | nil => cases b <;> rfl
  | cons c a ih =>
    cases b with
    | nil => rfl
    | cons d b =>
      obtain ⟨hHead, hTail⟩ := List.cons.inj h
      rw [casecmpEq, hHead, ih hTail]
      simp

theorem ciEqual_iff {v : Bytes} {c : String} (hPlain : 0 ∉ bytes c) :
    Authz.ciEqual v c = true ↔ CiEq v (bytes c) := by
  simp only [Authz.ciEqual, Bool.and_eq_true, beq_iff_eq]
  constructor
  · rintro ⟨hLength, hSame⟩
    exact ciEq_of_casecmp hLength hPlain hSame
  · intro h
    exact ⟨h.length_eq, casecmpEq_of_ciEq h⟩

namespace AuthzText

theorem param_username (t : AuthzText) : t.parsed.param "username" = some t.username := rfl

theorem param_uri (t : AuthzText) : t.parsed.param "uri" = some t.uri := rfl

theorem param_qop (t : AuthzText) (h : t.qop ≠ []) :
    t.parsed.param "nc" = some t.nc ∧ t.parsed.param "cnonce" = some t.cnonce := by
  rw [AuthText.param, AuthText.param, parsed, if_pos h]
  exact ⟨rfl, rfl⟩

theorem param_noQop (t : AuthzText) (h : t.qop = []) : t.parsed.param "cnonce" = none := by
  rw [AuthText.param, parsed, if_neg (not_not.mpr h)]
  rfl

end AuthzText

namespace Authz

theorem sess_iff (v : Bytes) : sess v = true ↔ CiEq v (bytes "MD5-sess") := by
  rw [sess, Bool.and_eq_true, ciEqual_iff (by decide)]
  constructor
  · exact fun h => h.2
  · intro h
    have hLength := h.length_eq
    refine ⟨?_, h⟩
    rw [hLength]
    decide

section

variable (md5 : Md5) (cnonce : Bytes) (challenge : AuthText)
  (username password method uri body qop : Bytes)

theorem md5Hex_one : md5Hex md5 [body] = digestOf md5 body := by
  simp [md5Hex, digestOf, List.intercalate]

theorem a2_answer : (digestA2 md5 method body
    (answer md5 cnonce challenge username password method uri body qop).parsed).map (digestOf md5) =
      some (ha2 md5 method uri body qop) := by
  have hQop : (qop.length ≠ 0 ∧ ciEqual qop "auth-int" = true) ↔ CiEq qop (bytes "auth-int") := by
    rw [ciEqual_iff (by decide)]
    refine ⟨fun h => h.2, fun h => ⟨?_, h⟩⟩
    rw [h.length_eq]
    decide
  rw [digestA2, AuthzText.param_uri, ha2, if_congr hQop rfl rfl]
  simp only [Option.bind_eq_bind, Option.bind_some, md5Hex_one]
  show Option.map _ (if CiEq qop (bytes "auth-int") then _ else _) = _
  split
  · rfl
  · rfl

/-- The session key of `MD5-sess` needs a `cnonce`, and only an answer with a `qop` has one. -/
theorem a1_answer : (digestA1 md5 password
    (answer md5 cnonce challenge username password method uri body qop).parsed).map (digestOf md5) =
      if sess challenge.algorithm = true ∧ qop = [] then none
      else some (ha1 md5 username challenge.realm password challenge.nonce cnonce
        (sess challenge.algorithm)) := by
  have hSess := sess_iff challenge.algorithm
  rw [digestA1, AuthzText.param_username]
  simp only [Option.bind_eq_bind, Option.bind_some]
  show Option.map _ (if CiEq challenge.algorithm (bytes "MD5-sess") then _ else _) = _
  cases hIs : sess challenge.algorithm with
  | false =>
    rw [hIs] at hSess
    rw [if_neg (fun h => by cases hSess.mpr h), if_neg (fun h => by cases h.1)]
    rfl
  | true =>
    rw [if_pos (hSess.mp hIs)]
    cases Decidable.em (qop = []) with
    | inl hNone =>
      rw [AuthzText.param_noQop _ hNone, if_pos ⟨rfl, hNone⟩]
      rfl
    | inr hSome =>
      have hCnonce : (answer md5 cnonce challenge username password method uri body qop).cnonce =
        cnonce := if_pos hSome
      rw [(AuthzText.param_qop _ hSome).2, if_neg (fun h => hSome h.2), hCnonce]
      rfl

/-- What a verifier makes of an answer. -/
theorem requestDigest_answer : requestDigest md5 password method body
    (answer md5 cnonce challenge username password method uri body qop).parsed =
      if sess challenge.algorithm = true ∧ qop = [] then none
      else some (answer md5 cnonce challenge username password method uri body qop).response := by
  have hA1 := a1_answer md5 cnonce challenge username password method uri body qop
  obtain ⟨a2, hA2, hHa2⟩ := Option.map_eq_some_iff.mp
    (a2_answer md5 cnonce challenge username password method uri body qop)
  rw [requestDigest, hA2]
  cases Decidable.em (sess challenge.algorithm = true ∧ qop = []) with
  | inl hMissing =>
    rw [if_pos hMissing, Option.map_eq_none_iff] at hA1
    rw [hA1, if_pos hMissing]
    rfl
  | inr hFull =>
    rw [if_neg hFull] at hA1 ⊢
    obtain ⟨a1, hA1, hHa1⟩ := Option.map_eq_some_iff.mp hA1
    rw [hA1]
    simp only [Option.bind_eq_bind, Option.bind_some, hHa1, hHa2]
    show (if qop = [] then _ else _) = some (responseText md5 _ _ _ _ _)
    rw [responseText]
    cases Decidable.em (qop = []) with
    | inl hNone =>
      rw [if_pos hNone, if_neg (by simp [hNone])]
      rfl
    | inr hSome =>
      have hCnonce : (answer md5 cnonce challenge username password method uri body qop).cnonce =
        cnonce := if_pos hSome
      have hNc : (answer md5 cnonce challenge username password method uri body qop).nc = ncText :=
        if_pos hSome
      obtain ⟨hNcParam, hCnonceParam⟩ := AuthzText.param_qop
        (answer md5 cnonce challenge username password method uri body qop) hSome
      rw [hNcParam, hCnonceParam, hCnonce, hNc, if_neg hSome,
        if_pos (by rwa [Ne, List.length_eq_zero_iff])]
      rfl

end

/-- A verifier that reads the text of credentials, in a buffer that takes it, computes their
`response`. -/
def Verifiable (md5 : Md5) (password method body : Bytes) (m : Mem) (azp : Authz) : Prop :=
  ∃ n, ∀ (cap : Nat) (b : Arena), n < cap → ∃ b',
    Chunk.run (fun _ => m.read) 0 cap (azp.build 0) b 0 = (some n, b') ∧
      ∃ t, Auth.ParsesTo (b'.readAt 0 n) t ∧
        requestDigest md5 password method body t = some (m.read azp.response)

end Authz

theorem Auth.ParsesTo.unique {b : Bytes} {t u : AuthText} (ht : Auth.ParsesTo b t)
    (hu : Auth.ParsesTo b u) : t = u := by
  have hRoom : ∀ k ≤ t.params.length + u.params.length + 1,
      Heap.Room { tsize := Auth.sizeof (t.params.length + u.params.length + 1) } (Auth.sizeof k) :=
    fun _ hk => Auth.room_sizeof hk
  obtain ⟨ap, hp₁, hRun, rfl⟩ := ht (fun _ => .zero) _ (hRoom _ (by omega))
  obtain ⟨ap', hp₂, hRun', rfl⟩ := hu (fun _ => .zero) _ (hRoom _ (by omega))
  rw [hRun] at hRun'
  obtain ⟨hSame, rfl⟩ := Prod.mk.inj (Option.some.inj hRun')
  obtain rfl := Except.ok.inj hSame
  rfl

namespace Authz

section

variable {md5 : Md5} {now : Option UInt32} {m : Mem} {challenge : Auth}
  {username password method uri : Str} {body qop : Option Str} {azp : Authz} {hp hp' : Heap}

theorem verifiable_of_roundTrips {password method body : Bytes} (hBack : RoundTrips m azp) :
    Verifiable md5 password method body m azp ↔
      requestDigest md5 password method body (azp.texts m).parsed = some (m.read azp.response) := by
  obtain ⟨n, hBack⟩ := hBack
  constructor
  · rintro ⟨n', h⟩
    obtain ⟨b', hRun, hParses⟩ := hBack (n + n' + 1) .zero (by omega)
    obtain ⟨b₁, hRun', t, hParses', hDigest⟩ := h (n + n' + 1) .zero (by omega)
    rw [hRun] at hRun'
    obtain ⟨hn, rfl⟩ := Prod.mk.inj hRun'
    obtain rfl := Option.some.inj hn
    rwa [← hParses.unique hParses'] at hDigest
  · intro hDigest
    refine ⟨n, fun cap b hRoom => ?_⟩
    obtain ⟨b', hRun, hParses⟩ := hBack cap b hRoom
    exact ⟨b', hRun, _, hParses, hDigest⟩

theorem verifiable_iff
    (hSettled : ∀ s ∈ [username, challenge.realm, challenge.nonce, uri, challenge.algorithm,
      challenge.opaque_, usedQop challenge qop], hp.Settled s)
    (hRun : (genAuthHf md5 now m challenge username password method uri body qop).run hp =
      some (.ok azp, hp')) (hBack : RoundTrips (hp'.mem m) azp) :
    Verifiable md5 ((hp.mem m).read password) ((hp.mem m).read method)
        ((hp.mem m).read (body.getD Str.null)) (hp'.mem m) azp ↔
      (CiEq ((hp.mem m).read challenge.algorithm) (bytes "MD5-sess") → (usedQop challenge qop).l ≠ 0) := by
  obtain ⟨-, cnonce, -, hTexts⟩ := genAuthHf_ok hSettled hRun
  have hResponse : (hp'.mem m).read azp.response = (azp.texts (hp'.mem m)).response := rfl
  have hUsed : (usedQop challenge qop).l = 0 ↔ (hp.mem m).read (usedQop challenge qop) = [] := by
    rw [← Mem.length_read (hp.mem m), List.length_eq_zero_iff]
  rw [verifiable_of_roundTrips hBack, hResponse, hTexts, requestDigest_answer, ← sess_iff, Ne, hUsed]
  have hAlgorithm : (challenge.texts (hp.mem m)).algorithm = (hp.mem m).read challenge.algorithm := rfl
  rw [hAlgorithm]
  cases Decidable.em (sess ((hp.mem m).read challenge.algorithm) = true ∧
    (hp.mem m).read (usedQop challenge qop) = []) with
  | inl hMissing =>
    rw [if_pos hMissing]
    exact ⟨(fun h => by cases h), fun h => absurd hMissing.2 (h hMissing.1)⟩
  | inr hFull =>
    rw [if_neg hFull]
    exact ⟨fun _ hSess hNone => hFull ⟨hSess, hNone⟩, fun _ => rfl⟩

/-- Credentials whose values can be printed are verified if and only if the algorithm is not
`MD5-sess` or a `qop` is used: the `cnonce` the session key is made with is not sent otherwise. -/
theorem genAuthHf_verifiable_iff
    (hSettled : ∀ s ∈ [username, challenge.realm, challenge.nonce, uri, challenge.algorithm,
      challenge.opaque_, usedQop challenge qop], hp.Settled s)
    (hRun : (genAuthHf md5 now m challenge username password method uri body qop).run hp =
      some (.ok azp, hp'))
    (hUsername : ch '"' ∉ (hp.mem m).read username) (hUri : ch '"' ∉ (hp.mem m).read uri)
    (hPrintable : Printable (challenge.texts (hp.mem m)) ((hp.mem m).read username)
      ((hp.mem m).read uri) ((hp.mem m).read (usedQop challenge qop))) :
    Verifiable md5 ((hp.mem m).read password) ((hp.mem m).read method)
        ((hp.mem m).read (body.getD Str.null)) (hp'.mem m) azp ↔
      (CiEq ((hp.mem m).read challenge.algorithm) (bytes "MD5-sess") → (usedQop challenge qop).l ≠ 0) :=
  verifiable_iff hSettled hRun ((roundTrips_iff_fields hSettled hRun).mpr
    ((printable_iff hSettled hRun hUsername hUri).mpr hPrintable))

end

/-- The answer to a plain challenge is verified. -/
theorem genAuthHf_verifiable_plain : ∃ challenge hp₁ azp hp₂,
    answerTo none (bytes "Digest realm=\"a\",nonce=\"n\"") = some (challenge, hp₁, azp, hp₂) ∧
      Verifiable (fun _ _ => 0) (bytes "secret") (bytes "INVITE") [] (hp₂.mem fun _ => .zero) azp := by
  have hTest : (answerTo none (bytes "Digest realm=\"a\",nonce=\"n\"")).any
      (fun x : Auth × Heap × Authz × Heap => plainChallenge x.1 &&
        decide (¬ CiEq (Mem.read (fun _ => .zero) x.1.algorithm) (bytes "MD5-sess"))) = true := by
    decide +kernel
  obtain ⟨⟨challenge, hp₁, azp, hp₂⟩, hAnswer, hTest⟩ := (Option.any_eq_true _ _).mp hTest
  obtain ⟨hPlain, hAlgorithm⟩ := (Bool.and_eq_true _ _).mp hTest
  obtain ⟨-, hGen⟩ := answerTo_some hAnswer
  obtain ⟨hUsed, hPrintable⟩ := printable_of_plain hPlain
  refine ⟨challenge, hp₁, azp, hp₂, hAnswer, (genAuthHf_verifiable_iff
    (fun s _ => settled_plainHeap s) hGen (by decide) (by decide) ?_).mpr ?_⟩
  · rw [hUsed]
    exact hPrintable
  · exact fun hSess => absurd hSess (of_decide_eq_true hAlgorithm)

/-- The `cnonce` that the session key of `MD5-sess` is made with is not sent when there is no `qop`. -/
theorem sessionKey_lost : ¬ ∀ (md5 : Md5) (now : Option UInt32) (m : Mem) (challenge : Auth)
    (username password method uri : Str) (body qop : Option Str) (azp : Authz) (hp hp' : Heap),
    (∀ s ∈ [username, challenge.realm, challenge.nonce, uri, challenge.algorithm,
      challenge.opaque_, usedQop challenge qop], hp.Settled s) →
    (genAuthHf md5 now m challenge username password method uri body qop).run hp = some (.ok azp, hp') →
    Verifiable md5 ((hp.mem m).read password) ((hp.mem m).read method)
      ((hp.mem m).read (body.getD Str.null)) (hp'.mem m) azp := by
  intro hAll
  have hTest : (answerTo (some 7) (bytes "Digest realm=\"a\",nonce=\"n\",algorithm=MD5-sess")).any
      (fun x : Auth × Heap × Authz × Heap => plainChallenge x.1 &&
        decide (CiEq (Mem.read (fun _ => .zero) x.1.algorithm) (bytes "MD5-sess"))) = true := by
    decide +kernel
  obtain ⟨⟨challenge, hp₁, azp, hp₂⟩, hAnswer, hTest⟩ := (Option.any_eq_true _ _).mp hTest
  obtain ⟨hPlain, hAlgorithm⟩ := (Bool.and_eq_true _ _).mp hTest
  obtain ⟨-, hGen⟩ := answerTo_some hAnswer
  obtain ⟨hUsed, hPrintable⟩ := printable_of_plain hPlain
  have hSettled : ∀ s ∈ [Str.lit (bytes "bob"), challenge.realm, challenge.nonce,
      Str.lit (bytes "sip:b"), challenge.algorithm, challenge.opaque_, usedQop challenge none],
      plainHeap.Settled s := fun s _ => settled_plainHeap s
  have hBack : RoundTrips (hp₂.mem fun _ => .zero) azp := by
    refine (roundTrips_iff_fields hSettled hGen).mpr
      ((printable_iff hSettled hGen (by decide) (by decide)).mpr ?_)
    rw [hUsed]
    exact hPrintable
  have hVerified := hAll _ _ _ _ _ _ _ _ _ _ _ _ _ hSettled hGen
  have hQop := (verifiable_iff hSettled hGen hBack).mp hVerified (of_decide_eq_true hAlgorithm)
  rw [hUsed] at hQop
  exact hQop rfl

end Authz

end Microsippy
