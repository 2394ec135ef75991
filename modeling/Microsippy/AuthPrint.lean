import Microsippy.AuthzPrint

/-! # Printed challenges

What `usipy_sip_hdr_auth_build` writes.
-/

namespace Microsippy

set_option autoImplicit false

/-! ## The builder -/

namespace Auth

/-- A field to be printed. -/
structure Field where
  name : Str
  value : Str
  quote : Bool

/-- `usipy_sip_hdr_auth_append_value` after `poff` bytes. -/
def appendValue (poff : Nat) (f : Field) : List Chunk :=
  (if poff ≠ 0 then [.print 0 [Str.lit (bytes ",")]] else []) ++
  [if f.quote then .print 0 [f.name, Str.lit (bytes "=\""), f.value, Str.lit (bytes "\"")]
    else if f.value.l ≠ 0 then .print 0 [f.name, Str.lit (bytes "="), f.value]
    else .print 0 [f.name]]

/-- The fields in the order they are printed. -/
def fields (m : Mem) (ap : Auth) : List Field :=
  (if ap.realm.l ≠ 0 then [⟨Str.lit (bytes "realm"), ap.realm, true⟩] else []) ++
  (if ap.nonce.l ≠ 0 then [⟨Str.lit (bytes "nonce"), ap.nonce, true⟩] else []) ++
  (if ap.qop.l ≠ 0 then [⟨Str.lit (bytes "qop"), ap.qop, ch ',' ∈ m.read ap.qop⟩] else []) ++
  (if ap.algorithm.l ≠ 0 then [⟨Str.lit (bytes "algorithm"), ap.algorithm, false⟩] else []) ++
  (if ap.opaque_.l ≠ 0 then [⟨Str.lit (bytes "opaque"), ap.opaque_, true⟩] else []) ++
  ap.params.map fun pp => ⟨pp.token, pp.value,
    pp.value.l ≠ 0 ∧ (ch ',' ∈ m.read pp.value ∨ ch ' ' ∈ m.read pp.value)⟩

/-- The fields one after the other, `poff` being what they have printed so far. -/
def appendAll (m : Mem) : Nat → List Field → List Chunk
  | _, [] => []
  | poff, f :: fs =>
    appendValue poff f ++ appendAll m (poff + (Chunk.outAll m.read (appendValue poff f)).length) fs

/-- `usipy_sip_hdr_auth_build`. -/
def build (m : Mem) (ap : Auth) : List Chunk :=
  [.print 0 [ap.scheme]] ++
  (if ap.realm.l ≠ 0 ∨ ap.nonce.l ≠ 0 ∨ ap.qop.l ≠ 0 ∨ ap.algorithm.l ≠ 0 ∨ ap.opaque_.l ≠ 0 ∨
    ap.params.length ≠ 0 then [.put 0 (Str.lit (bytes " "))] else []) ++
  appendAll m 0 (ap.fields m)

end Auth

/-! ## The printed text -/

namespace AuthField

/-- A field as it is printed: a name alone when there is no value and no quote. -/
def out (f : AuthField) : Bytes :=
  cstr f.name ++ if f.quote = false ∧ f.value = [] then [] else ch '=' :: f.valueOut

/-- The fields, with commas once something is printed. -/
def listOut : Bool → List AuthField → Bytes
  | _, [] => []
  | printed, f :: fs =>
    (if printed then ch ',' :: f.out else f.out) ++ listOut (printed || f.out ≠ []) fs

@[simp] theorem listOut_nil (printed : Bool) : listOut printed [] = [] := rfl

end AuthField

namespace AuthText

open AuthField

/-- The fields with a member of their own that are printed. -/
def knownFields (t : AuthText) : List AuthField :=
  (if t.realm ≠ [] then [⟨bytes "realm", t.realm, true⟩] else []) ++
  (if t.nonce ≠ [] then [⟨bytes "nonce", t.nonce, true⟩] else []) ++
  (if t.qop ≠ [] then [⟨bytes "qop", t.qop, ch ',' ∈ t.qop⟩] else []) ++
  (if t.algorithm ≠ [] then [⟨bytes "algorithm", t.algorithm, false⟩] else []) ++
  (if t.opaque_ ≠ [] then [⟨bytes "opaque", t.opaque_, true⟩] else [])

/-- The fields that are printed. -/
def fields (t : AuthText) : List AuthField :=
  t.knownFields ++ t.params.map fun p => ⟨p.1, p.2, ch ',' ∈ p.2 ∨ ch ' ' ∈ p.2⟩

def out (t : AuthText) : Bytes :=
  cstr t.scheme ++ if t.fields = [] then [] else ch ' ' :: listOut false t.fields

end AuthText

namespace Auth

open AuthField

/-- What a field reads as. -/
def Field.text (m : Mem) (f : Field) : AuthField := ⟨m.read f.name, m.read f.value, f.quote⟩

theorem length_ne_zero_iff (m : Mem) (s : Str) : s.l ≠ 0 ↔ m.read s ≠ [] := by
  rw [← Mem.length_read m s, Ne, List.length_eq_zero_iff]

theorem map_text_fields (m : Mem) (ap : Auth) :
    (ap.fields m).map (Field.text m) = (ap.texts m).fields := by
  have hIte : ∀ (p : Prop) [Decidable p] (f : Field),
      (if p then [f] else []).map (Field.text m) = if p then [f.text m] else [] := by
    intro p _ f
    split <;> rfl
  have hParam : ∀ v : Bytes, (v ≠ [] ∧ (ch ',' ∈ v ∨ ch ' ' ∈ v)) ↔ (ch ',' ∈ v ∨ ch ' ' ∈ v) := by
    intro v
    rw [and_iff_right_iff_imp]
    rintro (hIn | hIn) rfl <;> exact List.not_mem_nil hIn
  simp only [fields, List.map_append, hIte, Field.text, Mem.read_lit, length_ne_zero_iff m, AuthText.fields,
    AuthText.knownFields, texts, List.map_map, Function.comp_def, readPair, hParam]
  rfl

theorem outAll_appendValue (m : Mem) (poff : Nat) (f : Field) :
    Chunk.outAll m.read (appendValue poff f) =
      if poff ≠ 0 then ch ',' :: (f.text m).out else (f.text m).out := by
  have hComma : cstr (bytes ",") = [ch ','] := by decide
  have hBegin : cstr (bytes "=\"") = [ch '=', ch '"'] := by decide
  have hEq : cstr (bytes "=") = [ch '='] := by decide
  have hEnd : cstr (bytes "\"") = [ch '"'] := by decide
  have hOne : Chunk.outAll m.read [if f.quote then
      Chunk.print 0 [f.name, Str.lit (bytes "=\""), f.value, Str.lit (bytes "\"")]
      else if f.value.l ≠ 0 then .print 0 [f.name, Str.lit (bytes "="), f.value]
      else .print 0 [f.name]] = (f.text m).out := by
    rw [AuthField.out, AuthField.valueOut, Field.text]
    cases f.quote with
    | true => simp [Chunk.outAll, Chunk.out, Mem.read_lit, hBegin, hEnd]
    | false =>
      simp only [length_ne_zero_iff m]
      cases Decidable.em (m.read f.value = []) with
      | inl hNone => simp [Chunk.outAll, Chunk.out, hNone]
      | inr hSome => simp [Chunk.outAll, Chunk.out, Mem.read_lit, hSome, hEq]
  rw [appendValue, Chunk.outAll_append, hOne]
  split
  · rw [Chunk.outAll_cons, Chunk.out, List.map_singleton, Mem.read_lit, hComma]
    rfl
  · rfl

theorem outAll_appendAll (m : Mem) (poff : Nat) (fs : List Field) :
    Chunk.outAll m.read (appendAll m poff fs) = listOut (poff ≠ 0) (fs.map (Field.text m)) := by
  induction fs generalizing poff with
  | nil => rfl
  | cons f fs ih =>
    rw [appendAll, Chunk.outAll_append, ih, outAll_appendValue, List.map_cons, listOut]
    cases Decidable.em (poff = 0) with
    | inl hNone => simp [hNone]
    | inr hSome => simp [hSome]

/-- What the builder writes. -/
theorem outAll_build (m : Mem) (ap : Auth) :
    Chunk.outAll m.read (ap.build m) = (ap.texts m).out := by
  have hFields := map_text_fields m ap
  have hSpace : bytes " " = [ch ' '] := by decide
  have hSome : (ap.realm.l ≠ 0 ∨ ap.nonce.l ≠ 0 ∨ ap.qop.l ≠ 0 ∨ ap.algorithm.l ≠ 0 ∨
      ap.opaque_.l ≠ 0 ∨ ap.params.length ≠ 0) ↔ (ap.texts m).fields ≠ [] := by
    rw [← hFields, fields]
    simp only [List.append_eq_nil_iff, List.map_eq_nil_iff, ite_eq_right_iff, List.cons_ne_nil, imp_false,
      ne_eq, Decidable.not_not, List.length_eq_zero_iff, not_and_or, or_assoc]
  rw [build, Chunk.outAll_append, Chunk.outAll_append, outAll_appendAll, hFields, AuthText.out,
    Authz.outAll_ite, Chunk.outAll_cons, Chunk.out, Chunk.outAll_cons, Chunk.out, Mem.read_lit, hSpace]
  cases Decidable.em ((ap.texts m).fields = []) with
  | inl hNone =>
    rw [if_neg fun h => hSome.mp h hNone, if_pos hNone, hNone]
    simp [texts, Chunk.outAll]
  | inr hMore =>
    rw [if_pos (hSome.mpr hMore), if_neg hMore]
    simp [texts, Chunk.outAll]

theorem plain_appendAll (m : Mem) (poff : Nat) (fs : List Field) :
    ∀ c ∈ appendAll m poff fs, c.plain = true := by
  induction fs generalizing poff with
  | nil => exact List.forall_mem_nil _
  | cons f fs ih =>
    rw [appendAll, List.forall_mem_append]
    constructor
    · rw [appendValue]
      split_ifs <;> simp [Chunk.plain]
    · exact ih _

theorem plain_build (m : Mem) (ap : Auth) : ∀ c ∈ ap.build m, c.plain = true := by
  have hAll := plain_appendAll m 0 (ap.fields m)
  rw [build]
  split_ifs <;> simpa [Chunk.plain] using hAll

end Auth

end Microsippy
