import Microsippy.CaseCompare
import Microsippy.QuotedStrings

/-! # The tag of a To value

The To value of a response: that of the request as it is built without its tag, and the local tag.
-/

namespace Microsippy

set_option autoImplicit false

/-! ## Parameters written before another -/

namespace Params

variable {ws : UInt8 → Bool} {dlm : UInt8} {b p x : Bytes} {q z : Bytes × Bytes}
  {qs : List (Bytes × Bytes)}

/-- The name of a parameter without the white space around it. -/
def nameOf (ws : UInt8 → Bool) (q : Bytes × Bytes) : Bytes := (q.1.dropWhile ws).rdropWhile ws

/-- A parameter that is written as it was read. -/
structure Again (ws : UInt8 → Bool) (dlm : UInt8) (q : Bytes × Bytes) : Prop where
  whole : dlm ∉ pairOut q
  read : pair ws (pairOut q) = q

theorem again_parsed (b : Bytes) : ∀ q ∈ parsed ws dlm b, Again ws dlm q := by
  have hOne : ∀ p, dlm ∉ p → Again ws dlm (pair ws p) := fun p hNot =>
    ⟨fun hIn => hNot (mem_pairOut_pair hIn), pair_pairOut p⟩
  induction b using parsed_induct ws dlm with
  | nil =>
    rintro q hq
    cases hq
  | last b hSome hNot =>
    rw [parsed_last hSome hNot]
    rintro q hq
    obtain rfl := List.mem_singleton.mp hq
    exact hOne b hNot
  | cons a r hFirst ih =>
    rw [parsed_cut hFirst]
    exact List.forall_mem_cons.mpr ⟨hOne _ fun hIn => hFirst (Trim.mem_of_rdropWhile hIn), ih⟩

/-- White space at the ends of a parameter is not part of its name. -/
theorem nameOf_trimmed (hEq : ws (ch '=') = false) (hx : x = p ∨ x = p.dropWhile ws) :
    nameOf ws (pair ws (x.rdropWhile ws)) = nameOf ws (pair ws p) := by
  have hTrim : ∀ t : Bytes, (t.dropWhile ws).dropWhile ws = t.dropWhile ws := fun t =>
    List.dropWhile_idempotent ws t
  have hEnd : ∀ t : Bytes, (t.rdropWhile ws).rdropWhile ws = t.rdropWhile ws := fun t =>
    List.rdropWhile_idempotent ws t
  obtain ⟨hNot, -⟩ | ⟨t, v, rfl, hFirst, -⟩ := cut_cases (ch '=') p
  · have hNot' : ch '=' ∉ x.rdropWhile ws := by
      intro hIn
      have hIn' := Trim.mem_of_rdropWhile hIn
      cases hx with
      | inl hx => exact hNot (hx ▸ hIn')
      | inr hx => exact hNot (Trim.mem_of_dropWhile (hx ▸ hIn'))
    rw [pair_none hNot, pair_none hNot', nameOf, nameOf, Trim.trim_comm, hEnd, ← Trim.trim_comm]
    cases hx with
    | inl hx => rw [hx]
    | inr hx => rw [hx, hTrim]
  · obtain ⟨t', rfl, ht'⟩ : ∃ t', x = t' ++ ch '=' :: v ∧ (t' = t ∨ t' = t.dropWhile ws) := by
      cases hx with
      | inl hx => exact ⟨t, hx, Or.inl rfl⟩
      | inr hx => exact ⟨t.dropWhile ws, hx.trans (Trim.dropWhile_append_cons hEq), Or.inr rfl⟩
    have hNot : ch '=' ∉ t' := by
      intro hIn
      cases ht' with
      | inl hSame => exact hFirst (hSame ▸ hIn)
      | inr hSame => exact hFirst (Trim.mem_of_dropWhile (hSame ▸ hIn))
    have hKeep : (t' ++ ch '=' :: v).rdropWhile ws = t' ++ ch '=' :: v.rdropWhile ws :=
      Trim.rdropWhile_append_cons hEq
    rw [hKeep, pair_cut hNot, pair_cut hFirst, nameOf, nameOf]
    dsimp only
    rw [Trim.trim_comm, hEnd, Trim.trim_comm, hEnd, ← Trim.trim_comm, ← Trim.trim_comm]
    cases ht' with
    | inl hSame => rw [hSame]
    | inr hSame => rw [hSame, hTrim]

/-- Parameters that are written before one with nothing around it are read with the names they had. -/
theorem parsed_before_tight (hEq : ws (ch '=') = false) (hDlm : ws dlm = false)
    (hAgain : ∀ q ∈ qs, Again ws dlm q) (hz : Tight ws dlm z)
    (hx : x = out dlm (qs ++ [z]) ∨ x = (out dlm (qs ++ [z])).dropWhile ws) :
    ∃ ps, parsed ws dlm x = ps ++ [z] ∧ ps.map (nameOf ws) = qs.map (nameOf ws) := by
  induction qs generalizing x with
  | nil =>
    have hSame : x = pairOut z := by
      cases hx with
      | inl hx => exact hx
      | inr hx => exact hx.trans hz.left
    refine ⟨[], ?_, rfl⟩
    rw [hSame, parsed_last hz.some hz.whole, hz.read]
    rfl
  | cons q qs ih =>
    obtain ⟨hq, hqs⟩ := List.forall_mem_cons.mp hAgain
    have hMore : qs ++ [z] ≠ [] := List.append_ne_nil_of_right_ne_nil _ (List.cons_ne_nil _ _)
    rw [List.cons_append, out_cons hMore] at hx
    obtain ⟨p, rfl, hp⟩ : ∃ p, x = p ++ dlm :: out dlm (qs ++ [z]) ∧
        (p = pairOut q ∨ p = (pairOut q).dropWhile ws) := by
      cases hx with
      | inl hx => exact ⟨_, hx, Or.inl rfl⟩
      | inr hx => exact ⟨_, hx.trans (Trim.dropWhile_append_cons hDlm), Or.inr rfl⟩
    have hWhole : dlm ∉ p := by
      intro hIn
      cases hp with
      | inl hp => exact hq.whole (hp ▸ hIn)
      | inr hp => exact hq.whole (Trim.mem_of_dropWhile (hp ▸ hIn))
    obtain ⟨ps, hParsed, hNames⟩ := ih hqs (Or.inr rfl)
    have hName := nameOf_trimmed hEq hp
    rw [hq.read] at hName
    refine ⟨pair ws (p.rdropWhile ws) :: ps, ?_, ?_⟩
    · rw [parsed_cut hWhole, hParsed]
      rfl
    · rw [List.map_cons, List.map_cons, hName, hNames]

end Params

namespace NameAddr

open Params

/-! ## The value of a response -/

variable {b tag : Bytes} {t : NameAddrText} {q : Bytes × Bytes}

/-- Whether a parameter is a tag, by its name without white space around and in any case. -/
def isTag (q : Bytes × Bytes) : Bool := (nameOf Str.isLws q).map Turbo.lower == bytes "tag"

/-- The tags of a value, none where it is not accepted. -/
def tags (b : Bytes) : List (Bytes × Bytes) := (((parseText b).map (·.params)).getD []).filter isTag

/-- The To value of a response: that of the request without its tag, and then the local tag. -/
def taggedText (t : NameAddrText) (tag : Bytes) : Bytes :=
  textOut { t with params := t.params.filter fun q => q.1 != bytes "tag" } ++ (bytes ";tag=" ++ tag)

/-- Whether the address of a value ends where its bracket closes once it is built. -/
def Closes (b : Bytes) : Prop := ch '<' ∈ b ∨ ch '>' ∉ bareAddr b

instance (b : Bytes) : Decidable (Closes b) := inferInstanceAs (Decidable (_ ∨ _))

theorem textOut_append {d a : Bytes} {ps qs : List (Bytes × Bytes)} : textOut ⟨d, a, ps ++ qs⟩ =
    textOut ⟨d, a, ps⟩ ++ (qs.map fun q => ch ';' :: pairOut q).flatten := by
  simp [textOut]

theorem taggedText_eq (hTag : tag ≠ []) : taggedText t tag = textOut ⟨t.display_name, t.addr_spec,
    (t.params.filter fun q => q.1 != bytes "tag") ++ [(bytes "tag", tag)]⟩ := by
  have hEnd : bytes ";tag=" ++ tag = ch ';' :: pairOut (bytes "tag", tag) := by
    rw [pairOut, if_neg hTag]
    rfl
  rw [textOut_append, taggedText, hEnd, List.map_singleton, List.flatten_singleton]

theorem semi_not_mem_bareAddr : ch ';' ∉ bareAddr b := by
  rw [bareAddr]
  obtain ⟨hNot, hCut⟩ | ⟨a, r, -, hNot, hCut⟩ := cut_cases (ch ';') b
  · rw [hCut]
    exact hNot
  · rw [hCut]
    exact fun hIn => hNot (Trim.mem_of_rdropWhile hIn)

/-- What is read of a value that is built from a name and an address. -/
theorem parseText_textOut {d a : Bytes} {ps : List (Bytes × Bytes)} (hDisplay : ch '<' ∉ d) :
    parseText (textOut ⟨d, a, ps⟩) =
      (cut (ch '>') (a ++ ch '>' :: (ps.map fun q => ch ';' :: pairOut q).flatten)).bind fun x =>
        closedText ((if d = [] then [] else d ++ [ch ' ']).rdropWhile Str.isLws)
          ((x.1.dropWhile Str.isLws).rdropWhile Str.isLws) x.2 := by
  have hName : ch '<' ∉ (if d = [] then [] else d ++ [ch ' ']) := by
    split
    · exact List.not_mem_nil
    · rw [List.mem_append, not_or]
      exact ⟨hDisplay, by decide⟩
  rw [textOut, parseText, cut_append hName]
  dsimp only
  rw [cut_dropWhile isLws_gt]
  cases cut (ch '>') (a ++ ch '>' :: (ps.map fun q => ch ';' :: pairOut q).flatten) with
  | none => rfl
  | some x => rfl

theorem parseText_tagged (h : parseText b = some t) (hTag : Token tag) (hCloses : Closes b) :
    ∃ t', parseText (taggedText t tag) = some t' ∧ ∃ ps, t'.params = ps ++ [(bytes "tag", tag)] ∧
      ps.map (nameOf Str.isLws) =
        (t.params.filter fun q => q.1 != bytes "tag").map (nameOf Str.isLws) := by
  obtain ⟨hDisplay, -, hParams, hBare, hBracketed⟩ := parseText_some h
  have hAddr : ch '>' ∉ t.addr_spec := by
    cases Decidable.em (ch '<' ∈ b) with
    | inl hIn => exact (hBracketed hIn).1
    | inr hNot => exact hBare hNot ▸ hCloses.resolve_left hNot
  have hNamed : Token (bytes "tag") := by
    constructor
    · exact List.cons_ne_nil _ _
    · decide +kernel
  have hTight : Tight Str.isLws (ch ';') (bytes "tag", tag) :=
    tight_written ⟨hNamed, Or.inr (Or.inl hTag)⟩ fun hIn => (isToken_plain (hTag.2 _ hIn)).2.1 rfl
  have hAgain : ∀ q ∈ t.params.filter fun q => q.1 != bytes "tag", Again Str.isLws (ch ';') q :=
    fun q hq => again_parsed (paramText b) q (hParams ▸ (List.mem_filter.mp hq).1)
  obtain ⟨ps, hRead, hNames⟩ := parsed_before_tight isLws_eq isLws_semi hAgain hTight (Or.inl rfl)
  have hMore : (t.params.filter fun q => q.1 != bytes "tag") ++ [(bytes "tag", tag)] ≠ [] :=
    List.append_ne_nil_of_right_ne_nil _ (List.cons_ne_nil _ _)
  rw [taggedText_eq hTag.1, parseText_textOut hDisplay, cut_append hAddr, Option.bind_some, flatten_out hMore,
    closedText, List.dropWhile_cons_of_neg (Bool.eq_false_iff.mp isLws_semi)]
  dsimp only
  rw [if_neg, hRead]
  · exact ⟨_, rfl, ps, rfl, hNames⟩
  · rintro (hNone | hOther)
    · rw [hNone, parsed_nil] at hRead
      exact absurd hRead.symm (List.append_ne_nil_of_right_ne_nil _ (List.cons_ne_nil _ _))
    · exact hOther rfl

theorem parseText_unclosed (h : parseText b = some t) (hTag : tag ≠ []) (hNot : ¬ Closes b) :
    parseText (taggedText t tag) = none := by
  obtain ⟨hDisplay, -, -, hBare, -⟩ := parseText_some h
  rw [Closes, not_or, not_not] at hNot
  have hSemi : ch ';' ∉ t.addr_spec := hBare hNot.1 ▸ semi_not_mem_bareAddr
  obtain ⟨a, r, hIs, hFirst⟩ := List.eq_append_cons_of_mem (hBare hNot.1 ▸ hNot.2)
  have hRest : ch ';' ∉ r := fun hIn => hSemi (hIs ▸ List.mem_append_right a (List.mem_cons_of_mem _ hIn))
  rw [taggedText_eq hTag, parseText_textOut hDisplay, hIs, List.append_assoc, List.cons_append,
    cut_append hFirst, Option.bind_some, closedText, Trim.dropWhile_append_cons isLws_gt]
  cases hLeft : r.dropWhile Str.isLws with
  | nil =>
    dsimp only [List.nil_append]
    exact if_pos (Or.inr (by decide))
  | cons c y =>
    dsimp only [List.cons_append]
    apply if_pos
    right
    rintro rfl
    exact hRest (Trim.mem_of_dropWhile (hLeft ▸ List.mem_cons_self))

/-- A value has one tag: the local one where the request has none, and else one of the request's. -/
def RightTag (b tag v : Bytes) : Prop :=
  ∃ q, tags v = [q] ∧ (tags b = [] → q.2 = tag) ∧ (tags b ≠ [] → ∃ own ∈ tags b, own.2 = q.2)

/-- The request has no tag, or one of its own is the local tag and each has its plain name. -/
structure OwnTag (b tag : Bytes) : Prop where
  closes : Closes b
  plain : ∀ q ∈ tags b, q.1 = bytes "tag"
  own : tags b ≠ [] → ∃ q ∈ tags b, q.2 = tag

theorem isTag_eq {ps qs : List (Bytes × Bytes)}
    (h : ps.map (nameOf Str.isLws) = qs.map (nameOf Str.isLws)) :
    ps.filter isTag = [] ↔ qs.filter isTag = [] := by
  have hNames : ∀ rs : List (Bytes × Bytes), rs.filter isTag = [] ↔
      ∀ n ∈ rs.map (nameOf Str.isLws), (n.map Turbo.lower == bytes "tag") = false := by
    intro rs
    rw [List.filter_eq_nil_iff, List.forall_mem_map]
    exact forall₂_congr fun q _ => Iff.of_eq (Bool.not_eq_true _)
  rw [hNames, hNames, h]

theorem tags_eq (h : parseText b = some t) : tags b = t.params.filter isTag := by
  rw [tags, h]
  rfl

theorem plain_iff (h : parseText b = some t) : (t.params.filter fun q => q.1 != bytes "tag").filter isTag = [] ↔
    ∀ q ∈ tags b, q.1 = bytes "tag" := by
  rw [tags_eq h]
  simp only [List.filter_eq_nil_iff, List.mem_filter, bne_iff_ne]
  constructor
  · rintro hNone q ⟨hIn, hTag⟩
    exact Decidable.of_not_not fun hOther => hNone q ⟨hIn, hOther⟩ hTag
  · rintro hPlain q ⟨hIn, hOther⟩ hTag
    exact hOther (hPlain q ⟨hIn, hTag⟩)

theorem rightTag_iff (h : parseText b = some t) (hTag : Token tag) :
    RightTag b tag (taggedText t tag) ↔ OwnTag b tag := by
  have hLocal : isTag (bytes "tag", tag) = true := by
    change ((nameOf Str.isLws (bytes "tag", [])).map Turbo.lower == bytes "tag") = true
    decide +kernel
  cases Decidable.em (Closes b) with
  | inr hNot =>
    constructor
    · rintro ⟨q, hTags, -⟩
      rw [tags, parseText_unclosed h hTag.1 hNot] at hTags
      cases hTags
    · intro hOwn
      exact absurd hOwn.closes hNot
  | inl hCloses =>
    obtain ⟨t', hText, ps, hParams, hNames⟩ := parseText_tagged h hTag hCloses
    have hTags : tags (taggedText t tag) = ps.filter isTag ++ [(bytes "tag", tag)] := by
      rw [tags_eq hText, hParams, List.filter_append, List.filter_singleton, hLocal]
      rfl
    have hPlain := (isTag_eq hNames).trans (plain_iff h)
    constructor
    · rintro ⟨q, hOne, -, hOwn⟩
      rw [hTags] at hOne
      have hBefore : ps.filter isTag = [] := by
        have hLength := congrArg List.length hOne
        rw [List.length_append, List.length_singleton, List.length_singleton] at hLength
        exact List.length_eq_zero_iff.mp (by omega)
      rw [hBefore] at hOne
      obtain rfl := List.singleton_inj.mp hOne
      constructor
      · exact hCloses
      · exact hPlain.mp hBefore
      · exact hOwn
    · intro hOwn
      refine ⟨(bytes "tag", tag), ?_, fun _ => rfl, hOwn.own⟩
      rw [hTags, hPlain.mpr hOwn.plain]
      rfl

end NameAddr

end Microsippy
