import Microsippy.AuthzPrint
import Microsippy.Digest

/-! # Answers to a challenge

What `gen_auth_hf` checks of a challenge and the bytes it makes of it.
-/

namespace Microsippy

set_option autoImplicit false

/-- The heap as if it were taken up to `n`. -/
def Heap.upTo (hp : Heap) (n : Nat) : Heap := { hp with alen := n }

namespace Authz

theorem bufcopy_ok {m : Mem} {bp : Nat} {srcs dsts : List Str} {hp hp' : Heap}
    (hSettled : ∀ s ∈ srcs, (hp.upTo bp).Settled s)
    (hRun : (bufcopy m bp srcs).run hp = some (.ok dsts, hp')) :
    (∃ top, (hp.upTo bp).Grows (hp'.upTo top)) ∧
      dsts.map (hp'.mem m).read = srcs.map (hp.mem m).read := by
  induction srcs generalizing bp dsts hp with
  | nil =>
    obtain ⟨rfl, rfl⟩ := Op.pure_ok.mp hRun
    exact ⟨⟨bp, Std.Refl.refl _⟩, rfl⟩
  | cons src srcs ih =>
    rw [List.forall_mem_cons] at hSettled
    obtain ⟨dst, hp₁, hCopy, hRun⟩ := Op.bind_ok.mp hRun
    obtain ⟨more, hp₂, hMore, hRun⟩ := Op.bind_ok.mp hRun
    obtain ⟨rfl, rfl⟩ := Op.pure_ok.mp hRun
    have hStep : (hp.upTo bp).Grows (hp₁.upTo (bp + src.l)) ∧
        (hp₁.upTo (bp + src.l)).Settled dst ∧ (hp₁.mem m).read dst = (hp.mem m).read src := by
      split at hCopy
      · rename_i hEmpty
        obtain ⟨rfl, rfl⟩ := Op.pure_ok.mp hCopy
        have hNil : (hp.mem m).read src = [] := by
          rw [← List.length_eq_zero_iff, Mem.length_read, hEmpty]
        exact ⟨⟨rfl, Nat.le_add_right _ _, fun _ _ => rfl⟩, Heap.settled_null _, hNil.symm⟩
      · simp only [Op.bind_ok, Op.modify_ok, Op.get_ok, Op.pure_ok] at hCopy
        obtain ⟨_, _, rfl, _, _, ⟨rfl, rfl⟩, rfl, rfl⟩ := hCopy
        have hWritten := Arena.readAt_writeAt_same hp.first bp ((hp.mem m).read src)
        rw [Mem.length_read] at hWritten
        refine ⟨⟨rfl, Nat.le_add_right _ _, fun k hk => Chunk.writeAt_below _ _ hk⟩,
          Heap.settled_view (Nat.le_refl (bp + src.l)), ?_⟩
        rw [Heap.read_view]
        exact hWritten
    obtain ⟨hGrows, hDst, hRead⟩ := hStep
    obtain ⟨⟨top, hRest⟩, hTexts⟩ := ih (fun s hs => hGrows.settled (hSettled.2 s hs)) hMore
    refine ⟨⟨top, IsTrans.trans _ _ _ hGrows hRest⟩, ?_⟩
    have hDstRead : (hp₂.mem m).read dst = (hp₁.mem m).read dst := hRest.read hDst m
    rw [List.map_cons, List.map_cons, hTexts, hDstRead, hRead]
    congr 1
    exact List.map_congr_left fun s hs => hGrows.read (hSettled.2 s hs) m

/-- The credentials `gen_auth_hf` makes of the bytes it is given. -/
def answer (md5 : Md5) (cnonce : Bytes) (challenge : AuthText)
    (username password method uri body qop : Bytes) : AuthzText where
  scheme := bytes "Digest"
  username
  realm := challenge.realm
  nonce := challenge.nonce
  uri
  response := responseText md5
    (ha1 md5 username challenge.realm password challenge.nonce cnonce (sess challenge.algorithm))
    challenge.nonce cnonce qop (ha2 md5 method uri body qop)
  qop
  nc := if qop ≠ [] then ncText else []
  cnonce := if qop ≠ [] then cnonce else []
  algorithm := challenge.algorithm
  opaque_ := challenge.opaque_

/-- The `qop` that is used: none when the challenge has none. -/
def usedQop (challenge : Auth) (qop : Option Str) : Str :=
  if challenge.qop.l ≠ 0 then qop.getD Str.null else Str.null

/-- What `gen_auth_hf` checks of a challenge. -/
structure Accepts (m : Mem) (challenge : Auth) (qop : Option Str) : Prop where
  scheme : ciEqual (m.read challenge.scheme) "Digest" = true
  realm : m.read challenge.realm ≠ []
  nonce : m.read challenge.nonce ≠ []
  algorithm : m.read challenge.algorithm = [] ∨ ciEqual (m.read challenge.algorithm) "MD5" = true ∨
    ciEqual (m.read challenge.algorithm) "MD5-sess" = true
  supported : m.read (usedQop challenge qop) ≠ [] →
    supportedQop m challenge.qop.l challenge.qop (usedQop challenge qop) = true
  unasked : m.read (usedQop challenge qop) = [] → m.read challenge.qop = []

/-- Its `cnonce`, read off the clock where one is needed. -/
def cnonceAt (now : Option UInt32) (m : Mem) (challenge : Auth) (qop : Option Str) : Option Bytes :=
  if (usedQop challenge qop).l ≠ 0 ∨ sess (m.read challenge.algorithm) = true then now.map hex8
  else some []

theorem genAuthHf_ok {md5 : Md5} {now : Option UInt32} {m : Mem} {challenge : Auth}
    {username password method uri : Str} {body qop : Option Str} {azp : Authz} {hp hp' : Heap}
    (hSettled : ∀ s ∈ [username, challenge.realm, challenge.nonce, uri, challenge.algorithm,
      challenge.opaque_, usedQop challenge qop], hp.Settled s)
    (hRun : (genAuthHf md5 now m challenge username password method uri body qop).run hp =
      some (.ok azp, hp')) :
    Accepts (hp.mem m) challenge qop ∧ ∃ cnonce, cnonceAt now (hp.mem m) challenge qop = some cnonce ∧
      azp.texts (hp'.mem m) = answer md5 cnonce (challenge.texts (hp.mem m))
        ((hp.mem m).read username) ((hp.mem m).read password) ((hp.mem m).read method)
        ((hp.mem m).read uri) ((hp.mem m).read (body.getD Str.null))
        ((hp.mem m).read (usedQop challenge qop)) := by
  have hEmpty : ∀ s : Str, s.l = 0 ↔ (hp.mem m).read s = [] := fun s => by
    rw [← Mem.length_read (hp.mem m) s, List.length_eq_zero_iff]
  simp only [genAuthHf, Op.bind_ok, Op.get_ok, Op.require_ok, Op.orElse_ok] at hRun
  obtain ⟨_, _, ⟨rfl, rfl⟩, _, _, ⟨hScheme, rfl⟩, _, _, ⟨hSome, rfl⟩, _, _, ⟨hAlgorithm, rfl⟩, _, _,
    ⟨hQop, rfl⟩, cnonce, _, ⟨hCnonce, rfl⟩, at_, hp₁, hAlloc, copied, hp₂, hCopy, hRun⟩ := hRun
  obtain ⟨rfl, -, rfl⟩ := Heap.reserve_ok.mp hAlloc
  have hUsed : (if challenge.qop.l ≠ 0 then qop.getD Str.null else Str.null) =
    usedQop challenge qop := rfl
  simp only [hUsed, if_true] at hCopy hCnonce
  constructor
  · refine ⟨hScheme, ?_, ?_, ?_, ?_, ?_⟩
    · rw [Ne, ← hEmpty]
      exact hSome.1
    · rw [Ne, ← hEmpty]
      exact hSome.2
    · rw [← hEmpty]
      exact hAlgorithm
    · intro hSome
      rw [Ne, ← hEmpty] at hSome
      rw [usedQop] at hSome ⊢
      split at hSome
      · rename_i hHas
        rw [if_pos hHas] at hQop ⊢
        exact hQop.2
      · exact absurd rfl hSome
    · intro hNone
      rw [← hEmpty] at hNone ⊢
      rw [usedQop] at hNone
      split at hNone
      · rename_i hHas
        rw [if_pos hHas] at hQop
        exact absurd hNone hQop.1
      · rename_i hNot
        exact not_not.mp hNot
  · refine ⟨cnonce, hCnonce, ?_⟩
    have hLe := Heap.le_alignedSize hp.alen
    have hGrows : ∀ n, hp.Grows (Heap.upTo { hp with alen := n } (Heap.alignedSize hp.alen + sizeof)) :=
      fun n => ⟨rfl, Nat.le_trans hLe (Nat.le_add_right _ _), fun _ _ => rfl⟩
    obtain ⟨-, hTexts⟩ := bufcopy_ok (fun s hs => by
      simp only [List.mem_cons, List.not_mem_nil, or_false] at hs hSettled
      obtain rfl | rfl | rfl | rfl | rfl | rfl | rfl | rfl | rfl | rfl := hs
      · exact (hGrows _).settled (hSettled _ (by simp))
      · exact (hGrows _).settled (hSettled _ (by simp))
      · exact (hGrows _).settled (hSettled _ (by simp))
      · exact (hGrows _).settled (hSettled _ (by simp))
      · exact Heap.settled_lit _ rfl
      · exact (hGrows _).settled (hSettled _ (by simp))
      · exact (hGrows _).settled (hSettled _ (by simp))
      · exact (hGrows _).settled (hSettled _ (by simp))
      · split
        · exact Heap.settled_lit _ rfl
        · exact Heap.settled_null _
      · split
        · exact Heap.settled_lit _ rfl
        · exact Heap.settled_null _) hCopy
    split at hRun
    · obtain ⟨rfl, rfl⟩ := Op.pure_ok.mp hRun
      simp only [List.map_cons, List.map_nil, List.cons.injEq] at hTexts
      obtain ⟨hUsername, hRealm, hNonce, hUri, hResponse, hAlg, hOpaque, hQopText, hNc, hCn, -⟩ := hTexts
      have hSame : ∀ n, Heap.mem { hp with alen := n } m = hp.mem m := fun _ => rfl
      have hOf : ∀ b : Bytes, (hp.mem m).read
          (if (usedQop challenge qop).l ≠ 0 then Str.lit b else Str.null) =
            if (hp.mem m).read (usedQop challenge qop) ≠ [] then b else [] := by
        intro b
        have hIff := not_congr (hEmpty (usedQop challenge qop))
        split
        · rename_i hHas
          rw [if_pos (hIff.mp hHas), Mem.read_lit]
        · rename_i hNot
          rw [if_neg (fun hHas => hNot (hIff.mpr hHas)), Mem.read_null]
      rw [hSame, hOf] at hNc hCn
      rw [hSame, Mem.read_lit] at hResponse
      rw [hSame] at hUsername hRealm hNonce hUri hAlg hOpaque hQopText
      simp only [texts, answer, Auth.texts, hUsername, hRealm, hNonce, hUri, hResponse, hAlg, hOpaque,
        hQopText, hNc, hCn, Mem.read_lit]
    · exact absurd hRun Op.not_fail_ok

end Authz

/-! ## Letter case -/

theorem asciiLower_eq_of_plain {c d : UInt8} (h : asciiLower c = d) (hd : ¬ (97 ≤ d ∧ d ≤ 122)) : c = d := by
  rw [asciiLower] at h
  split at h
  · rename_i hUpper
    exfalso
    refine hd ?_
    simp only [UInt8.le_iff_toNat_le] at hUpper ⊢
    have hSum : (c + 32).toNat = c.toNat + 32 := by
      rw [UInt8.toNat_add]
      have hBound : c.toNat ≤ 90 := hUpper.2
      have h32 : (32 : UInt8).toNat = 32 := rfl
      omega
    rw [← h, hSum]
    have hLow : 65 ≤ c.toNat := hUpper.1
    have hHigh : c.toNat ≤ 90 := hUpper.2
    constructor
    · show 97 ≤ c.toNat + 32
      omega
    · show c.toNat + 32 ≤ 122
      omega
  · exact h

theorem mem_of_ci {a b : Bytes} (h : CiEq a b) {c : UInt8} (hLower : asciiLower c = c)
    (hc : ¬ (97 ≤ c ∧ c ≤ 122)) (hMem : c ∈ b) : c ∈ a := by
  have hIn : c ∈ a.map asciiLower := by
    rw [h]
    exact List.mem_map.mpr ⟨c, hMem, hLower⟩
  obtain ⟨d, hd, hIs⟩ := List.mem_map.mp hIn
  rwa [asciiLower_eq_of_plain hIs hc] at hd

/-- Strings that compare equal up to a NUL are equal when there is none. -/
theorem ciEq_of_casecmp {a b : Bytes} (hLength : a.length = b.length) (hPlain : 0 ∉ b)
    (h : casecmpEq a b = true) : CiEq a b := by
  induction a generalizing b with
  | nil =>
    obtain rfl := List.eq_nil_of_length_eq_zero hLength.symm
    rfl
  | cons c a ih =>
    cases b with
    | nil => cases hLength
    | cons d b =>
      rw [List.mem_cons, not_or] at hPlain
      simp only [casecmpEq, Bool.and_eq_true, beq_iff_eq, Bool.or_eq_true] at h
      obtain ⟨hHead, hEnd | hTail⟩ := h
      · rw [hEnd] at hHead
        have hNul := asciiLower_eq_of_plain (d := 0) hHead.symm (by decide)
        exact absurd hNul.symm hPlain.1
      · have hRest := ih (Nat.succ.inj hLength) hPlain.2 hTail
        rw [CiEq, List.map_cons, List.map_cons, hHead, hRest]

/-- A byte that neither ends a value nor is trimmed from one. -/
def plainByte (c : UInt8) : Bool := c != 0 && c != ch ',' && c != ch '"' && !Str.isLws c

theorem bare_of_plain {v : Bytes} (hSome : v ≠ []) (h : ∀ c ∈ v, plainByte c = true) :
    0 ∉ v ∧ ch '"' ∉ v ∧ BareValue v := by
  have hNot : ∀ c, plainByte c = false → c ∉ v := by
    intro c hc hMem
    rw [h c hMem] at hc
    contradiction
  refine ⟨hNot 0 (by decide), hNot _ (by decide), ?_, ?_, hNot _ (by decide)⟩
  · obtain ⟨c, t, rfl⟩ := List.exists_cons_of_ne_nil hSome
    have hc := h c List.mem_cons_self
    simp only [plainByte, Bool.and_eq_true, Bool.not_eq_true', bne_iff_ne] at hc
    exact ⟨c, t, rfl, Str.isWs_of_isLws hc.2, hc.1.2⟩
  · rw [List.rdropWhile_eq_self_iff]
    intro hNe
    have hc := h _ (List.getLast_mem hNe)
    simp only [plainByte, Bool.and_eq_true, Bool.not_eq_true', bne_iff_ne] at hc
    exact Bool.eq_false_iff.mp hc.2

theorem plainByte_of_lower {c : UInt8} (h : plainByte (asciiLower c) = true) : plainByte c = true := by
  rw [asciiLower] at h
  split at h
  · rename_i hUpper
    simp only [UInt8.le_iff_toNat_le] at hUpper
    have hLow : 65 ≤ c.toNat := hUpper.1
    have hNe : ∀ d : UInt8, d.toNat < 65 → c ≠ d := by
      rintro d hd rfl
      omega
    simp only [plainByte, Str.isLws, Bool.and_eq_true, Bool.not_eq_true', bne_iff_ne,
      Bool.or_eq_false_iff, beq_eq_false_iff_ne]
    exact ⟨⟨⟨hNe _ (by decide), hNe _ (by decide)⟩, hNe _ (by decide)⟩, ⟨⟨hNe _ (by decide),
      hNe _ (by decide)⟩, hNe _ (by decide)⟩, hNe _ (by decide)⟩
  · exact h

theorem bare_of_ciEqual {v : Bytes} {c : String} (hPlain : ∀ d ∈ (bytes c).map asciiLower, plainByte d = true)
    (hNul : 0 ∉ bytes c) (hSome : v ≠ []) (h : Authz.ciEqual v c = true) : 0 ∉ v ∧ BareValue v := by
  simp only [Authz.ciEqual, Bool.and_eq_true, beq_iff_eq] at h
  have hSame := ciEq_of_casecmp h.1 hNul h.2
  obtain ⟨hNoNul, -, hBare⟩ := bare_of_plain hSome fun d hd => by
    refine plainByte_of_lower (hPlain _ ?_)
    rw [← hSame]
    exact List.mem_map_of_mem hd
  exact ⟨hNoNul, hBare⟩

/-! ## The bytes of an answer -/

namespace Authz

/-- An element of a `qop` list. -/
structure QopToken (v : Bytes) : Prop where
  noComma : ch ',' ∉ v
  begins : v.dropWhile Str.isWs = v

theorem QopToken.of_ci {v w : Bytes} (h : QopToken v) (hSame : CiEq v w) : QopToken w := by
  refine ⟨fun hMem => h.noComma (mem_of_ci hSame (by decide) (by decide) hMem), ?_⟩
  cases w with
  | nil => rfl
  | cons c w =>
    cases v with
    | nil => cases hSame
    | cons d v =>
      have hHead : asciiLower d = asciiLower c := (List.cons.inj hSame).1
      have hNot := List.head?_dropWhile_not Str.isWs (d :: v)
      rw [h.begins] at hNot
      have hWs : Str.isWs c = false := by
        rw [Bool.eq_false_iff]
        intro hWs
        simp only [Str.isWs, Bool.or_eq_true, beq_iff_eq] at hWs
        have hLower : asciiLower c = c ∧ ¬ (97 ≤ c ∧ c ≤ 122) := by
          obtain rfl | rfl := hWs <;> decide
        rw [hLower.1] at hHead
        obtain rfl := asciiLower_eq_of_plain hHead hLower.2
        rw [List.head?_cons] at hNot
        simp only [Str.isWs] at hNot
        obtain rfl | rfl := hWs <;> cases hNot
      rw [List.dropWhile_cons_of_neg (by simp [hWs])]

theorem QopToken.of_trimmed {v : Bytes} (h : ch ',' ∉ v) :
    QopToken ((v.dropWhile Str.isWs).rdropWhile Str.isWs) := by
  have hPrefix := List.rdropWhile_prefix Str.isWs (v.dropWhile Str.isWs)
  refine ⟨fun hMem => h ((List.dropWhile_sublist _).subset (hPrefix.subset hMem)), ?_⟩
  have hNot := List.head?_dropWhile_not Str.isWs v
  generalize (v.dropWhile Str.isWs).rdropWhile Str.isWs = w at hPrefix
  cases w with
  | nil => rfl
  | cons c w =>
    obtain ⟨u, hu⟩ := hPrefix
    rw [← hu, List.cons_append, List.head?_cons] at hNot
    rw [List.dropWhile_cons_of_neg (Bool.eq_false_iff.mp hNot)]

/-- A supported `qop` is an element of the list, up to letter case. -/
theorem token_of_supported {m : Mem} {fuel : Nat} {work qop : Str} (hPlain : 0 ∉ m.read qop)
    (h : supportedQop m fuel work qop = true) : QopToken (m.read qop) := by
  induction fuel generalizing work with
  | zero => cases h
  | succ fuel ih =>
    have hStep : ∀ token rest : Str, ch ',' ∉ m.read token →
        (if ((token.trmB m).trmE m).l = qop.l ∧
          casecmpEq (m.read ((token.trmB m).trmE m)) (m.read qop) = true then true
          else supportedQop m fuel rest qop) = true → QopToken (m.read qop) := by
      intro token rest hComma hFound
      split at hFound
      · rename_i hSame
        rw [← Mem.length_read m, ← Mem.length_read m] at hSame
        refine QopToken.of_ci ?_ (ciEq_of_casecmp hSame.1 hPlain hSame.2)
        rw [Str.read_trmE, Str.read_trmB]
        exact .of_trimmed hComma
      · exact ih hFound
    have hElem := Str.read_splitElem m work (ch ',')
    rw [supportedQop] at h
    split at h
    · cases h
    · obtain ⟨hNot, hCut⟩ | ⟨a, r, -, hFirst, hCut⟩ := cut_cases (ch ',') (m.read work)
      · rw [hCut] at hElem
        rw [Option.map_eq_none_iff.mp hElem] at h
        exact hStep work Str.null hNot h
      · rw [hCut] at hElem
        obtain ⟨x, hSplit, hRead⟩ := Option.map_eq_some_iff.mp hElem
        rw [hSplit] at h
        refine hStep x.1 x.2 ?_ h
        rw [(Prod.mk.inj hRead).1]
        exact fun hMem => hFirst ((List.rdropWhile_prefix _ _).subset hMem)

theorem plain_hexDigit (n : Nat) : plainByte (hexDigit n) = true := by
  have hAll : ∀ k < 16, plainByte ((bytes "0123456789abcdef").getD k 0) = true := by decide
  exact hAll _ (Nat.mod_lt _ (by decide))

theorem plain_md5Hex (md5 : Md5) (parts : List Bytes) : ∀ c ∈ md5Hex md5 parts, plainByte c = true := by
  intro c hc
  rw [md5Hex, md5Format, List.mem_flatMap] at hc
  obtain ⟨b, -, hc⟩ := hc
  simp only [List.mem_cons, List.not_mem_nil, or_false] at hc
  obtain rfl | rfl := hc <;> exact plain_hexDigit _

theorem plain_responseText (md5 : Md5) (ha1 nonce cnonce qop ha2 : Bytes) :
    ∀ c ∈ responseText md5 ha1 nonce cnonce qop ha2, plainByte c = true := by
  rw [responseText]
  split
  · exact plain_md5Hex _ _
  · exact plain_md5Hex _ _

theorem plain_hex8 (n : UInt32) : ∀ c ∈ hex8 n, plainByte c = true := by
  intro c hc
  rw [hex8, List.mem_map] at hc
  obtain ⟨k, -, rfl⟩ := hc
  exact plain_hexDigit _

theorem Accepts.algorithm_bare {m : Mem} {challenge : Auth} {qop : Option Str}
    (h : Accepts m challenge qop) (hSome : m.read challenge.algorithm ≠ []) :
    0 ∉ m.read challenge.algorithm ∧ BareValue (m.read challenge.algorithm) := by
  obtain hNone | hMd5 | hSess := h.algorithm
  · exact absurd hNone hSome
  · exact bare_of_ciEqual (by decide +kernel) (by decide +kernel) hSome hMd5
  · exact bare_of_ciEqual (by decide +kernel) (by decide +kernel) hSome hSess

theorem plain_cnonceAt {now : Option UInt32} {m : Mem} {challenge : Auth} {qop : Option Str}
    {cnonce : Bytes} (h : cnonceAt now m challenge qop = some cnonce) :
    ∀ c ∈ cnonce, plainByte c = true := by
  rw [cnonceAt] at h
  split at h
  · obtain ⟨n, -, rfl⟩ := Option.map_eq_some_iff.mp h
    exact plain_hex8 n
  · obtain rfl := Option.some.inj h
    exact List.forall_mem_nil _

end Authz

end Microsippy
