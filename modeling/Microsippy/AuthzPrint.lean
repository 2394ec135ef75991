import Microsippy.AuthzText
import Microsippy.Scratch

/-! # Printed credentials

What `usipy_sip_hdr_authz_build` writes.
-/

namespace Microsippy

set_option autoImplicit false

/-! ## Printing -/

namespace Chunk

/-- A piece that needs no room but its own. -/
def plain : Chunk → Bool
  | put keep _ => keep == 0
  | print keep _ => keep == 0
  | _ => false

/-- A builder of such pieces does not fail in a buffer longer than what it writes. -/
theorem run_room {f : Str → Bytes} {base cap : Nat} {cs : List Chunk} {b : Arena} {off : Nat}
    (hPlain : ∀ c ∈ cs, c.plain = true) (hLength : ∀ s, (f s).length = s.l)
    (hRoom : off + (outAll f cs).length < cap) :
    ∃ b', run (fun _ => f) base cap cs b off = (some (off + (outAll f cs).length), b') := by
  induction cs generalizing b off with
  | nil => exact ⟨b, rfl⟩
  | cons c cs ih =>
    rw [List.forall_mem_cons] at hPlain
    rw [outAll_cons, List.length_append] at hRoom ⊢
    cases c with
    | need n => cases hPlain.1
    | fail => cases hPlain.1
    | put keep s =>
      obtain rfl : keep = 0 := beq_iff_eq.mp hPlain.1
      rw [out, hLength] at hRoom ⊢
      obtain ⟨b', hRun⟩ := @ih (b.writeAt (base + off) (f s)) (off + s.l) hPlain.2 (by omega)
      refine ⟨b', ?_⟩
      rw [run, if_pos (by omega), hRun, Nat.add_assoc]
    | print keep parts =>
      obtain rfl : keep = 0 := beq_iff_eq.mp hPlain.1
      rw [out] at hRoom ⊢
      obtain ⟨b', hRun⟩ := @ih
        (b.writeAt (base + off) ((parts.map fun s => cstr (f s)).flatten ++ [0]))
        (off + (parts.map fun s => cstr (f s)).flatten.length) hPlain.2 (by omega)
      refine ⟨b', ?_⟩
      rw [run, if_pos (by omega), hRun, Nat.add_assoc]

/-- A buffer longer than the text takes it whole. -/
theorem run_whole (m : Mem) {cs : List Chunk} (hPlain : ∀ c ∈ cs, c.plain = true) {cap : Nat} (b : Arena)
    (hRoom : (outAll m.read cs).length < cap) :
    ∃ b', run (fun _ => m.read) 0 cap cs b 0 = (some (outAll m.read cs).length, b') ∧
      b'.readAt 0 (outAll m.read cs).length = outAll m.read cs := by
  obtain ⟨b', hRun⟩ : ∃ b', run (fun _ => m.read) 0 cap cs b 0 =
      (some (0 + (outAll m.read cs).length), b') :=
    run_room hPlain (Mem.length_read m) (by rwa [Nat.zero_add])
  have hStays : ∀ c ∈ cs, ∀ s ∈ c.strs, ∀ b₁ : Arena, (∀ k < 0, b₁ k = b k) →
      (fun _ => m.read) b₁ s = m.read s := fun _ _ _ _ _ _ => rfl
  obtain ⟨-, hText⟩ := run_some hStays (Mem.length_read m) hRun
  rw [Nat.zero_add] at hRun hText
  exact ⟨b', hRun, hText⟩

/-- Every buffer that is large enough gets a text of which `P` holds. -/
def Writes (m : Mem) (cs : List Chunk) (P : Bytes → Prop) : Prop :=
  ∃ n, ∀ (cap : Nat) (b : Arena), n < cap → ∃ b',
    run (fun _ => m.read) 0 cap cs b 0 = (some n, b') ∧ P (b'.readAt 0 n)

theorem writes_iff {m : Mem} {cs : List Chunk} {P : Bytes → Prop} (hPlain : ∀ c ∈ cs, c.plain = true) :
    Writes m cs P ↔ P (outAll m.read cs) := by
  constructor
  · rintro ⟨n, h⟩
    have hRoom : (outAll m.read cs).length < n + (outAll m.read cs).length + 1 := by omega
    obtain ⟨b', hRun, hHolds⟩ := h (n + (outAll m.read cs).length + 1) .zero (by omega)
    obtain ⟨b₁, hText, hRead⟩ := run_whole m hPlain .zero hRoom
    rw [hText] at hRun
    obtain ⟨hn, rfl⟩ := Prod.mk.inj hRun
    obtain rfl := Option.some.inj hn
    rwa [hRead] at hHolds
  · intro h
    refine ⟨(outAll m.read cs).length, fun cap b hRoom => ?_⟩
    obtain ⟨b', hRun, hRead⟩ := run_whole m hPlain b hRoom
    exact ⟨b', hRun, hRead.symm ▸ h⟩

end Chunk

/-- The bytes of credentials. -/
structure AuthzText where
  scheme : Bytes
  username : Bytes
  realm : Bytes
  nonce : Bytes
  uri : Bytes
  response : Bytes
  qop : Bytes
  nc : Bytes
  cnonce : Bytes
  algorithm : Bytes
  opaque_ : Bytes
  deriving DecidableEq

namespace AuthzText

open AuthField

/-- The fields that are printed. -/
def fields (t : AuthzText) : List AuthField :=
  [⟨bytes "username", t.username, true⟩, ⟨bytes "realm", t.realm, true⟩, ⟨bytes "nonce", t.nonce, true⟩,
    ⟨bytes "uri", t.uri, true⟩, ⟨bytes "response", t.response, true⟩] ++
  (if t.algorithm ≠ [] then [⟨bytes "algorithm", t.algorithm, false⟩] else []) ++
  (if t.qop ≠ [] then
    [⟨bytes "qop", t.qop, false⟩, ⟨bytes "nc", t.nc, false⟩, ⟨bytes "cnonce", t.cnonce, true⟩] else []) ++
  (if t.opaque_ ≠ [] then [⟨bytes "opaque", t.opaque_, true⟩] else [])

def out (t : AuthzText) : Bytes := t.scheme ++ ch ' ' :: (joined t.fields).tail

/-- The credentials as a parsed header has them: what has no member of its own is a parameter. -/
def parsed (t : AuthzText) : AuthText where
  scheme := t.scheme
  realm := t.realm
  nonce := t.nonce
  qop := t.qop
  algorithm := t.algorithm
  opaque_ := t.opaque_
  params := [(bytes "username", t.username), (bytes "uri", t.uri), (bytes "response", t.response)] ++
    if t.qop ≠ [] then [(bytes "nc", t.nc), (bytes "cnonce", t.cnonce)] else []

/-- The names that are printed. -/
def names : List Bytes := [bytes "username", bytes "realm", bytes "nonce", bytes "uri",
  bytes "response", bytes "algorithm", bytes "qop", bytes "nc", bytes "cnonce", bytes "opaque"]

theorem nameOk_of_mem {n : Bytes} (h : n ∈ names) : NameOk n := by
  simp only [names, List.mem_cons, List.not_mem_nil, or_false] at h
  obtain rfl | rfl | rfl | rfl | rfl | rfl | rfl | rfl | rfl | rfl := h <;>
    exact ⟨⟨_, _, rfl, by decide, by decide⟩, by decide, by decide⟩

theorem names_fields (t : AuthzText) : ∀ f ∈ t.fields, f.name ∈ names := by
  rw [fields]
  split_ifs <;> simp [names]

/-- What a header with these fields is parsed to. -/
theorem assignAll_fields (t : AuthzText) :
    AuthText.assignAll { scheme := t.scheme } (t.fields.map pair) = t.parsed := by
  obtain ⟨scheme, username, realm, nonce, uri, response, qop, nc, cnonce, algorithm, opaque_⟩ := t
  cases algorithm <;> cases qop <;> cases opaque_ <;> rfl

/-- No field is lost when those that are always printed say something. -/
theorem full_fields {t : AuthzText} (hRealm : t.realm ≠ []) (hNonce : t.nonce ≠ []) :
    AuthText.Full { scheme := t.scheme } (t.fields.map pair) := by
  rw [AuthText.Full, assignAll_fields]
  obtain ⟨scheme, username, realm, nonce, uri, response, qop, nc, cnonce, algorithm, opaque_⟩ := t
  cases algorithm <;> cases qop <;> cases opaque_ <;>
    simp [AuthText.kept, AuthText.eqsIn, parsed, fields, pair, hRealm, hNonce] <;> omega

end AuthzText

/-! ## The printed text -/

namespace Authz

open AuthField

def texts (m : Mem) (azp : Authz) : AuthzText where
  scheme := m.read azp.scheme
  username := m.read azp.username
  realm := m.read azp.realm
  nonce := m.read azp.nonce
  uri := m.read azp.uri
  response := m.read azp.response
  qop := m.read azp.qop
  nc := m.read azp.nc
  cnonce := m.read azp.cnonce
  algorithm := m.read azp.algorithm
  opaque_ := m.read azp.opaque_

theorem out_appendValue (m : Mem) (name : String) (hName : 0 ∉ bytes name) (value : Str)
    (quote : Bool) :
    Chunk.outAll m.read (appendValue 0 false name value quote) =
      joined [⟨bytes name, m.read value, quote⟩] := by
  have hComma : cstr (bytes ",") = [ch ','] := by decide
  have hEnd : cstr (bytes "\"") = [ch '"'] := by decide
  have hBegin : bytes "=\"" = [ch '=', ch '"'] := by decide
  have hEq : bytes "=" = [ch '='] := by decide
  have hNul : (0 : UInt8) ∉ [ch '=', ch '"'] := by decide
  have hHead : cstr (bytes name ++ [ch '=', ch '"']) = bytes name ++ [ch '=', ch '"'] :=
    cstr_of_plain (by simp only [List.mem_append, not_or]; exact ⟨hName, hNul⟩)
  have hBareHead : cstr (bytes name ++ [ch '=']) = bytes name ++ [ch '='] :=
    cstr_of_plain (by simp only [List.mem_append, not_or]; exact ⟨hName, by decide⟩)
  cases quote with
  | true =>
    simp only [appendValue, Bool.false_eq_true, if_false, if_true, hBegin, List.singleton_append,
      Chunk.outAll_cons, Chunk.out, Chunk.outAll_nil, List.map_cons, List.map_nil, List.flatten_cons,
      List.flatten_nil, Mem.read_lit, hHead, hComma, hEnd, List.append_nil, joined_cons, joined_nil,
      valueOut]
    simp
  | false =>
    simp only [appendValue, Bool.false_eq_true, if_false, hEq, List.singleton_append,
      Chunk.outAll_cons, Chunk.out, Chunk.outAll_nil, List.map_cons, List.map_nil, List.flatten_cons,
      List.flatten_nil, Mem.read_lit, hBareHead, hComma, List.append_nil, joined_cons, joined_nil,
      valueOut]
    simp

theorem joined_append (fs gs : List AuthField) : joined (fs ++ gs) = joined fs ++ joined gs :=
  List.flatMap_append

theorem outAll_ite (rd : Str → Bytes) (p : Prop) [Decidable p] (cs : List Chunk) :
    Chunk.outAll rd (if p then cs else []) = if p then Chunk.outAll rd cs else [] := by
  split <;> rfl

theorem joined_ite (p : Prop) [Decidable p] (fs : List AuthField) :
    joined (if p then fs else []) = if p then joined fs else [] := by
  split <;> rfl

theorem out_first (m : Mem) (name : String) (hName : 0 ∉ bytes name) (value : Str) (quote : Bool) :
    ch ',' :: Chunk.outAll m.read (appendValue 0 true name value quote) =
      joined [⟨bytes name, m.read value, quote⟩] := by
  have hComma : cstr (bytes ",") = [ch ','] := by decide
  have hLater : appendValue 0 false name value quote =
      .print 0 [Str.lit (bytes ",")] :: appendValue 0 true name value quote := rfl
  rw [← out_appendValue m name hName, hLater, Chunk.outAll_cons, Chunk.out]
  simp [hComma]

/-- What the builder writes. -/
theorem outAll_build (m : Mem) (azp : Authz) :
    Chunk.outAll m.read (azp.build 0) = (azp.texts m).out := by
  have hSome : ∀ s : Str, s.l ≠ 0 ↔ m.read s ≠ [] := fun s => by
    rw [← Mem.length_read m s, Ne, List.length_eq_zero_iff]
  have hRealm := out_appendValue m "realm" (by decide) azp.realm true
  have hNonce := out_appendValue m "nonce" (by decide) azp.nonce true
  have hUri := out_appendValue m "uri" (by decide) azp.uri true
  have hResponse := out_appendValue m "response" (by decide) azp.response true
  have hAlgorithm := out_appendValue m "algorithm" (by decide) azp.algorithm false
  have hQop := out_appendValue m "qop" (by decide) azp.qop false
  have hNc := out_appendValue m "nc" (by decide) azp.nc false
  have hCnonce := out_appendValue m "cnonce" (by decide) azp.cnonce true
  have hOpaque := out_appendValue m "opaque" (by decide) azp.opaque_ true
  have hFields : joined (azp.texts m).fields =
      ch ',' :: Chunk.outAll m.read ((azp.build 0).drop 2) := by
    have hSplit : (azp.texts m).fields =
        [⟨bytes "username", m.read azp.username, true⟩] ++ ([⟨bytes "realm", m.read azp.realm, true⟩] ++
        ([⟨bytes "nonce", m.read azp.nonce, true⟩] ++ ([⟨bytes "uri", m.read azp.uri, true⟩] ++
        ([⟨bytes "response", m.read azp.response, true⟩] ++
        ((if m.read azp.algorithm ≠ [] then [⟨bytes "algorithm", m.read azp.algorithm, false⟩] else []) ++
        ((if m.read azp.qop ≠ [] then [⟨bytes "qop", m.read azp.qop, false⟩] ++
          ([⟨bytes "nc", m.read azp.nc, false⟩] ++ [⟨bytes "cnonce", m.read azp.cnonce, true⟩]) else []) ++
        (if m.read azp.opaque_ ≠ [] then [⟨bytes "opaque", m.read azp.opaque_, true⟩] else []))))))) := by
      simp only [AuthzText.fields, texts, List.append_assoc, List.cons_append, List.nil_append]
      rfl
    rw [hSplit]
    simp only [joined_append, joined_ite, ← out_first m "username" (by decide), ← hRealm, ← hNonce,
      ← hUri, ← hResponse, ← hAlgorithm, ← hQop, ← hNc, ← hCnonce, ← hOpaque, ← hSome]
    simp only [build, List.append_assoc, List.cons_append, List.nil_append, List.drop_succ_cons,
      List.drop_zero, Chunk.outAll_append, outAll_ite]
  have hParts : azp.build 0 = .put 0 azp.scheme :: .put 0 (Str.lit (bytes " ")) ::
      (azp.build 0).drop 2 := rfl
  have hSpace : bytes " " = [ch ' '] := by decide
  rw [hParts, Chunk.outAll_cons, Chunk.outAll_cons, Chunk.out, Chunk.out, Mem.read_lit, hSpace,
    AuthzText.out, hFields]
  rfl

theorem plain_appendValue (first : Bool) (name : String) (value : Str) (quote : Bool) :
    ∀ c ∈ appendValue 0 first name value quote, c.plain = true := by
  cases first <;> cases quote <;> simp [appendValue, Chunk.plain]

theorem plain_build (azp : Authz) : ∀ c ∈ azp.build 0, c.plain = true := by
  have hFront : ∀ c ∈ [Chunk.put 0 azp.scheme, .put 0 (Str.lit (bytes " "))], c.plain = true := by
    simp [Chunk.plain]
  have hIte : ∀ (p : Prop) [Decidable p] (cs : List Chunk), (∀ c ∈ cs, c.plain = true) →
      ∀ c ∈ (if p then cs else []), c.plain = true := by
    intro p _ cs hcs
    split
    · exact hcs
    · exact List.forall_mem_nil _
  have hAppend := plain_appendValue
  refine List.forall_mem_append.mpr ⟨List.forall_mem_append.mpr ⟨List.forall_mem_append.mpr
    ⟨List.forall_mem_append.mpr ⟨List.forall_mem_append.mpr ⟨List.forall_mem_append.mpr
    ⟨List.forall_mem_append.mpr ⟨List.forall_mem_append.mpr ⟨hFront, ?_⟩, ?_⟩, ?_⟩, ?_⟩, ?_⟩,
    hIte _ _ ?_⟩, hIte _ _ ?_⟩, hIte _ _ ?_⟩
  · exact hAppend _ _ _ _
  · exact hAppend _ _ _ _
  · exact hAppend _ _ _ _
  · exact hAppend _ _ _ _
  · exact hAppend _ _ _ _
  · exact hAppend _ _ _ _
  · exact List.forall_mem_append.mpr ⟨List.forall_mem_append.mpr ⟨hAppend _ _ _ _, hAppend _ _ _ _⟩,
      hAppend _ _ _ _⟩
  · exact hAppend _ _ _ _

end Authz

end Microsippy
