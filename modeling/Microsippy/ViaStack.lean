import Microsippy.ViaText

/-! # The stack under the Via parser

`usipy_sip_hdr_via_parse` leaves `paramspace` as the stack has it where a value has no `;`: for which
values what it returns depends on nothing else than the value.
-/

namespace Microsippy

set_option autoImplicit false

namespace Str

theorem within_split3 {m : Mem} {x y z w : Str} {dlm : UInt8} (h : x.split3 m dlm = some (y, z, w)) :
    w.Within x := by
  rw [split3] at h
  obtain ⟨⟨a, r⟩, hFirst, hRest⟩ := Option.bind_eq_some_iff.mp h
  obtain ⟨⟨b, s⟩, hSecond, hIs⟩ := Option.bind_eq_some_iff.mp hRest
  obtain ⟨-, -, rfl⟩ : a = y ∧ b = z ∧ s = w := by simpa using hIs
  exact (within_split hSecond).2.trans (within_split hFirst).2

theorem within_splitlws {m : Mem} {x y z : Str} (h : x.splitlws m = some (y, z)) : z.Within x := by
  rw [splitlws, Option.map_eq_some_iff] at h
  obtain ⟨r, hAt, hIs⟩ := h
  obtain ⟨-, rfl⟩ := Prod.mk.inj hIs
  obtain ⟨hLt, -⟩ := List.findIdx?_eq_some_iff_getElem.mp hAt
  rw [Mem.length_read] at hLt
  exact (within_ltrmB m _).trans (within_part x (show r + 1 + (x.l - r - 1) ≤ x.l by omega))

end Str

namespace Via

/-- What a value is parsed to is given by the value: by no two stacks differently, without parameters
where there is no `;`, and with parameters that are parts of it. -/
structure Determined (b : Bytes) : Prop where
  same : ∀ (stack stack' : Str) (m : Mem) (hvp : Str) (hp : Heap), (hp.mem m).read hvp = b →
    (parse stack m hvp).run hp = (parse stack' m hvp).run hp
  none : ∀ (stack : Str) (m : Mem) (hvp : Str) (hp hp' : Heap) (vp : Via), (hp.mem m).read hvp = b →
    (parse stack m hvp).run hp = some (.ok vp, hp') → ch ';' ∉ b → vp.params = []
  inside : ∀ (stack : Str) (m : Mem) (hvp : Str) (hp hp' : Heap) (vp : Via), (hp.mem m).read hvp = b →
    (parse stack m hvp).run hp = some (.ok vp, hp') →
      ∀ pp ∈ vp.params, pp.token.Within hvp ∧ pp.value.Within hvp

/-- A value that is not bare is taken apart without the stack, at a `;` if at all. -/
theorem parseParts_cases {b : Bytes} (hBare : ¬ Bare b) {m : Mem} {hvp : Str} (hRead : m.read hvp = b) :
    (∀ stack, parseParts stack m hvp = none) ∨
      ∃ vp, (∀ stack, parseParts stack m hvp = some vp) ∧ ch ';' ∈ b ∧
        ∀ pp ∈ vp.params, pp.token.Within hvp ∧ pp.value.Within hvp := by
  simp only [parseParts_eq]
  cases hSplit : hvp.split3 m (ch '/') with
  | none => exact Or.inl fun _ => rfl
  | some x =>
    obtain ⟨name, version, rest⟩ := x
    simp only [Option.bind_some]
    cases hLws : (rest.ltrmB m).splitlws m with
    | none => exact Or.inl fun _ => rfl
    | some y =>
      obtain ⟨transport, s4⟩ := y
      have hHead := headText_read hSplit hLws
      rw [hRead] at hHead
      have hHeaded := (headText_some hHead).1
      simp only [Option.bind_some, spaces]
      cases hSemi : (s4.ltrmB m).split m (ch ';') with
      | none =>
        have hNot : ch ';' ∉ m.read (s4.ltrmB m) := Str.split_eq_none_iff.mp hSemi
        have hPlace : place m (s4.ltrmB m) = none := by
          rw [← Option.not_isSome_iff_eq_none]
          intro hSome
          refine hBare ⟨_, hHeaded, hNot, place_iff.mp ?_⟩
          rw [← read_place, Option.isSome_map]
          exact hSome
        simp only [hPlace, Option.bind_none]
        exact Or.inl fun _ => trivial
      | some z =>
        obtain ⟨sent_by, paramspace⟩ := z
        simp only
        cases place m (sent_by.ltrmE m) with
        | none => exact Or.inl fun _ => rfl
        | some w =>
          refine Or.inr ⟨_, fun _ => rfl, ?_, fun pp hpp => ?_⟩
          · have hIn : ch ';' ∈ m.read (s4.ltrmB m) := by
              rw [(Str.read_split hSemi).1]
              simp
            generalize m.read (s4.ltrmB m) = text at hHeaded hIn
            cases hHeaded with
            | mk => simp [hIn]
          · obtain ⟨s, hs, rfl⟩ := List.mem_map.mp hpp
            have hSpace : (paramspace.ltrmB m).Within hvp :=
              (Str.within_ltrmB m _).trans ((Str.within_split hSemi).2.trans
                ((Str.within_ltrmB m _).trans ((Str.within_splitlws hLws).trans
                  ((Str.within_ltrmB m _).trans (Str.within_split3 hSplit)))))
            have hElem := (Str.within_elems hs).trans hSpace
            exact ⟨Str.within_tvPairTrimmed.1.trans hElem, Str.within_tvPairTrimmed.2.trans hElem⟩

/-- What a bare value is parsed to on a stack. -/
theorem parseText_bare {b : Bytes} (h : Bare b) (stack : Bytes) :
    ∃ t, parseText stack b = some t ∧ t.params = Params.parsed Str.isLws (ch ';') stack := by
  obtain ⟨s4, hHeaded, hNot, hPlace⟩ := h
  obtain ⟨name, version, transport, hHead⟩ := hHeaded.headText
  obtain ⟨place, hIs⟩ := Option.isSome_iff_exists.mp (place_iff.mpr hPlace)
  rw [parseText, hHead]
  simp only [Option.bind_eq_bind, Option.bind_some, spaceText, cut_none hNot, hIs]
  exact ⟨_, rfl, rfl⟩

/-- A bare value is parsed to what is on the stack. -/
theorem not_determined_of_bare {b : Bytes} (hBare : Bare b) : ¬ Determined b := by
  intro h
  have hRead : ∀ stack, (parseParts (Str.lit stack) (fun _ => .zero) (Str.lit b)).map
      (texts fun _ => .zero) = parseText stack b := by
    intro stack
    rw [read_parseParts, Mem.read_lit, Mem.read_lit]
  obtain ⟨t, hText, hParams⟩ := parseText_bare hBare (bytes "x")
  obtain ⟨t', hText', hParams'⟩ := parseText_bare hBare []
  rw [← hRead] at hText hText'
  obtain ⟨vp, hParts, rfl⟩ := Option.map_eq_some_iff.mp hText
  obtain ⟨hp', hRun⟩ := @parse_run (Str.lit (bytes "x")) (fun _ => .zero) (Str.lit b) vp
    { tsize := sizeof vp.params.length } hParts (room_fresh sized _)
  have hOther := hRun
  rw [h.same _ (Str.lit []) _ _ _ (Mem.read_lit _ b)] at hOther
  have hSame := (parse_ok hOther).2
  change parseParts _ (fun _ => .zero) _ = _ at hSame
  rw [hSame, Option.map_some, Option.some.injEq] at hText'
  rw [hText', hParams'] at hParams
  exact absurd hParams (by decide)

/-- What is parsed depends on the value alone if and only if the value is not bare. -/
theorem determined_iff (b : Bytes) : Determined b ↔ ¬ Bare b := by
  constructor
  · exact fun h hBare => not_determined_of_bare hBare h
  · intro hBare
    constructor
    · intro stack stack' m hvp hp hRead
      refine @paramsParser_congr sizeof _ (parseParts stack) Via.params (parseParts stack') m hvp hp ?_
      obtain hNone | ⟨vp, hSome, -⟩ := parseParts_cases hBare hRead
      · rw [hNone, hNone]
      · rw [hSome, hSome]
    · intro stack m hvp hp hp' vp hRead hRun hNot
      have hParts := (parse_ok hRun).2
      obtain hNone | ⟨vp', -, hIn, -⟩ := parseParts_cases hBare hRead
      · rw [hNone] at hParts
        cases hParts
      · exact absurd hIn hNot
    · intro stack m hvp hp hp' vp hRead hRun
      have hParts := (parse_ok hRun).2
      obtain hNone | ⟨vp', hSome, -, hInside⟩ := parseParts_cases hBare hRead
      · rw [hNone] at hParts
        cases hParts
      · rw [hSome] at hParts
        obtain rfl := Option.some.inj hParts
        exact hInside

/-- A Via without parameters. -/
theorem bare_host : Bare (bytes "SIP/2.0/UDP 192.0.2.1") := by
  have hText : bytes "SIP/2.0/UDP 192.0.2.1" =
      bytes "SIP" ++ ch '/' :: (bytes "2.0" ++ ch '/' :: ([] ++ (bytes "UDP" ++ ch ' ' ::
        ([] ++ bytes "192.0.2.1")))) := by decide +kernel
  refine ⟨bytes "192.0.2.1", ?_, by decide +kernel, by decide +kernel, Or.inl (by decide +kernel)⟩
  rw [hText]
  exact .mk (by decide +kernel) (by decide +kernel) (List.forall_mem_nil _) (by decide +kernel)
    (by decide +kernel) (by decide) (List.forall_mem_nil _) (by decide +kernel)

theorem not_determined_host : ¬ ∀ b, Determined b := fun h =>
  not_determined_of_bare bare_host (h _)

end Via

end Microsippy
