import Microsippy.NameAddrText

/-! # Via values as text

What `usipy_sip_hdr_via_parse` makes of the bytes of a value and of the stack it is called on, and which
values are built again to the same.
-/

namespace Microsippy

set_option autoImplicit false

/-- `usipy_str_split3` on bytes. -/
def cut3 (dlm : UInt8) (b : Bytes) : Option (Bytes × Bytes × Bytes) := do
  let (y, rest) ← cut dlm b
  let (z, w) ← cut dlm rest
  return (y, z, w)

theorem cut3_append {dlm : UInt8} {y z w : Bytes} (hy : dlm ∉ y) (hz : dlm ∉ z) :
    cut3 dlm (y ++ dlm :: (z ++ dlm :: w)) = some (y, z, w) := by
  simp only [cut3, cut_append hy, cut_append hz, Option.bind_eq_bind, Option.bind_some]
  rfl

theorem cut3_some {dlm : UInt8} {b y z w : Bytes} (h : cut3 dlm b = some (y, z, w)) :
    b = y ++ dlm :: (z ++ dlm :: w) ∧ dlm ∉ y ∧ dlm ∉ z := by
  rw [cut3] at h
  obtain ⟨-, hCut⟩ | ⟨a, r, rfl, hFirst, hCut⟩ := cut_cases dlm b
  · rw [hCut] at h
    cases h
  · rw [hCut] at h
    obtain ⟨-, hCut⟩ | ⟨a', r', rfl, hSecond, hCut⟩ := cut_cases dlm r
    · simp only [hCut, Option.bind_eq_bind, Option.bind_some] at h
      cases h
    · simp only [hCut, Option.bind_eq_bind, Option.bind_some] at h
      obtain ⟨rfl, rfl, rfl⟩ : a = y ∧ a' = z ∧ r' = w := by simpa using h
      exact ⟨rfl, hFirst, hSecond⟩

theorem Str.read_split3 (m : Mem) (x : Str) (dlm : UInt8) :
    (x.split3 m dlm).map (fun y => (m.read y.1, m.read y.2.1, m.read y.2.2)) = cut3 dlm (m.read x) := by
  have hFirst := read_split_cut m x dlm
  rw [split3, cut3, ← hFirst]
  cases x.split m dlm with
  | none => rfl
  | some y =>
    have hSecond := read_split_cut m y.2 dlm
    simp only [Option.map_some, readPair, Option.bind_eq_bind, Option.bind_some, ← hSecond]
    cases y.2.split m dlm <;> rfl

/-- The bytes of a Via, the parameters by name and value. -/
structure ViaText where
  name : Bytes := []
  version : Bytes := []
  transport : Bytes := []
  host : Bytes := []
  port : UInt32 := 0
  params : List (Bytes × Bytes) := []
  deriving DecidableEq

namespace Via

open Params

/-- The protocol and the text after it, without the white space between. -/
def headText (b : Bytes) : Option (Bytes × Bytes × Bytes × Bytes) := do
  let (name, version, s4) ← cut3 (ch '/') b
  let (transport, s4) ← cutLws (s4.dropWhile Str.isLws)
  return (name.rdropWhile Str.isLws, (version.dropWhile Str.isLws).rdropWhile Str.isLws, transport,
    s4.dropWhile Str.isLws)

/-- The host and the port of a `sent_by`. -/
def placeText (sent_by : Bytes) : Option (Bytes × UInt32) :=
  if sent_by = [] then none
  else match cut (ch ':') sent_by with
    | some (host, port) =>
      (portText (port.dropWhile Str.isLws)).map fun port => (host.rdropWhile Str.isLws, port)
    | none => some (sent_by, 0)

/-- The `sent_by` and the `paramspace`, `stack` being what that reads before it is set. -/
def spaceText (stack s4 : Bytes) : Bytes × Bytes :=
  match cut (ch ';') s4 with
  | none => (s4, stack)
  | some (sent_by, paramspace) => (sent_by.rdropWhile Str.isLws, paramspace.dropWhile Str.isLws)

/-- `usipy_sip_hdr_via_parse` on bytes. -/
def parseText (stack b : Bytes) : Option ViaText := do
  let (name, version, transport, s4) ← headText b
  let (sent_by, paramspace) := spaceText stack s4
  let (host, port) ← placeText sent_by
  return { name, version, transport, host, port, params := parsed Str.isLws (ch ';') paramspace }

def texts (m : Mem) (vp : Via) : ViaText where
  name := m.read vp.name
  version := m.read vp.version
  transport := m.read vp.transport
  host := m.read vp.host
  port := vp.port
  params := Params.texts m vp.params

/-- The `sent_by` and the `paramspace` as views. -/
def spaces (stack : Str) (m : Mem) (s4 : Str) : Str × Str :=
  match s4.split m (ch ';') with
  | none => (s4, stack)
  | some (sent_by, paramspace) => (sent_by.ltrmE m, paramspace.ltrmB m)

/-- The host and the port of a `sent_by` as a view. -/
def place (m : Mem) (sent_by : Str) : Option (Str × UInt32) :=
  if sent_by.l = 0 then none
  else match sent_by.split m (ch ':') with
    | some (host, port) => ((port.ltrmB m).atouiRange m 1 65535).map fun port => (host.ltrmE m, port)
    | none => some (sent_by, 0)

theorem parseParts_eq (stack : Str) (m : Mem) (hvp : Str) :
    parseParts stack m hvp = (hvp.split3 m (ch '/')).bind fun x =>
      ((x.2.2.ltrmB m).splitlws m).bind fun y =>
        (place m (spaces stack m (y.2.ltrmB m)).1).bind fun z =>
          let paramspace := (spaces stack m (y.2.ltrmB m)).2
          let params := elems (fun s => s.splitElem m (ch ';')) paramspace.l paramspace
          some { name := x.1.ltrmE m, version := x.2.1.ltrm m, transport := y.1, host := z.1, port := z.2
                 params := params.map (tvPairTrimmed m) } := rfl

theorem read_place (m : Mem) (sent_by : Str) :
    (place m sent_by).map (fun place => (m.read place.1, place.2)) = placeText (m.read sent_by) := by
  have hEmpty : sent_by.l = 0 ↔ m.read sent_by = [] := by
    rw [← Mem.length_read m sent_by, List.length_eq_zero_iff]
  have hSplit := Str.read_split_cut m sent_by (ch ':')
  rw [place, placeText, ← hSplit]
  simp only [hEmpty]
  split
  · rfl
  · cases sent_by.split m (ch ':') with
    | none => rfl
    | some x =>
      simp only [Option.map_some, readPair, read_port, Str.read_ltrmB, Option.map_map]
      congr 1
      funext port
      simp only [Function.comp_apply, Str.read_ltrmE]

theorem read_spaces (stack : Str) (m : Mem) (s4 : Str) :
    readPair m (spaces stack m s4) = spaceText (m.read stack) (m.read s4) := by
  have hSplit := Str.read_split_cut m s4 (ch ';')
  rw [spaces, spaceText, ← hSplit]
  cases s4.split m (ch ';') with
  | none => rfl
  | some x => simp only [Option.map_some, readPair, Str.read_ltrmE, Str.read_ltrmB]

theorem read_parseParts (stack : Str) (m : Mem) (hvp : Str) :
    (parseParts stack m hvp).map (texts m) = parseText (m.read stack) (m.read hvp) := by
  have hHead := Str.read_split3 m hvp (ch '/')
  rw [parseParts_eq, parseText, headText, ← hHead]
  cases hvp.split3 m (ch '/') with
  | none => rfl
  | some x =>
    obtain ⟨name, version, rest⟩ := x
    have hLws := Str.read_splitlws m (rest.ltrmB m)
    rw [Str.read_ltrmB] at hLws
    simp only [Option.map_some, Option.bind_eq_bind, Option.bind_some, ← hLws]
    cases (rest.ltrmB m).splitlws m with
    | none => rfl
    | some y =>
      obtain ⟨transport, s4⟩ := y
      have hSpaces := read_spaces stack m (s4.ltrmB m)
      rw [Str.read_ltrmB] at hSpaces
      simp only [Option.map_some, readPair, Option.bind_some, Option.pure_def, ← hSpaces, ← read_place]
      cases place m (spaces stack m (s4.ltrmB m)).1 with
      | none => rfl
      | some z =>
        simp only [Option.map_some, Option.bind_some, texts, Str.read_ltrmE, Str.read_ltrm, texts_trimmed]
        rfl

/-- The head of a value as its views read. -/
theorem headText_read {m : Mem} {hvp name version rest transport s4 : Str}
    (hSplit : hvp.split3 m (ch '/') = some (name, version, rest))
    (hLws : (rest.ltrmB m).splitlws m = some (transport, s4)) :
    headText (m.read hvp) = some (m.read (name.ltrmE m), m.read (version.ltrm m), m.read transport,
      m.read (s4.ltrmB m)) := by
  have hHead := Str.read_split3 m hvp (ch '/')
  have hRest := Str.read_splitlws m (rest.ltrmB m)
  rw [hSplit, Option.map_some] at hHead
  rw [hLws, Option.map_some, Str.read_ltrmB] at hRest
  rw [headText, ← hHead]
  simp only [Option.bind_eq_bind, Option.bind_some, ← hRest, readPair, Str.read_ltrmE, Str.read_ltrm,
    Str.read_ltrmB]
  rfl

/-! ## The parser -/

theorem sized : Sized sizeof := sized_of_header (by decide)

theorem parse_ok {stack : Str} {m : Mem} {hvp : Str} {vp : Via} {hp hp' : Heap}
    (hRun : (parse stack m hvp).run hp = some (.ok vp, hp')) :
    hp'.mem = hp.mem ∧ parseParts stack (hp.mem m) hvp = some vp :=
  @paramsParser_ok sizeof _ (parseParts stack) Via.params m hvp vp hp hp' hRun

theorem parse_run {stack : Str} {m : Mem} {hvp : Str} {vp : Via} {hp : Heap}
    (hParts : parseParts stack (hp.mem m) hvp = some vp) (hRoom : hp.Room (sizeof vp.params.length)) :
    ∃ hp', (parse stack m hvp).run hp = some (.ok vp, hp') :=
  @paramsParser_run sizeof _ (parseParts stack) Via.params sized m hvp vp hp hParts hRoom

/-- Whether a heap of any kind with the room for them has a text parsed to `t`, whatever is on the
stack. -/
def ParsesTo (b : Bytes) (t : ViaText) : Prop :=
  ∀ (stack : Str) (m : Mem) (hp : Heap), hp.Room (sizeof t.params.length) →
    ∃ vp hp', (parse stack m (Str.lit b)).run hp = some (.ok vp, hp') ∧ vp.texts (hp'.mem m) = t

theorem parsesTo_iff {b : Bytes} {t : ViaText} : ParsesTo b t ↔ ∀ stack, parseText stack b = some t := by
  have hEach : ∀ stack : Str, _ ↔ ∀ m : Mem, parseText (m.read stack) b = some t := fun stack =>
    @paramsParser_iff sizeof _ _ (parseParts stack) Via.params sized texts
      (fun m => parseText (m.read stack)) (fun t => t.params.length) (read_parseParts stack)
      (fun _ _ => List.length_map ..) b t
  constructor
  · intro h stack
    have hRead := (hEach (Str.lit stack)).mp (h (Str.lit stack)) fun _ => .zero
    rwa [Mem.read_lit] at hRead
  · intro h stack
    exact (hEach stack).mpr fun m => h (m.read stack)

/-! ## The grammar of what comes before the parameters -/

/-- A text that is a protocol, white space and a rest, which does not begin with white space. -/
inductive Headed (s4 : Bytes) : Bytes → Prop
  | mk {name version w transport w' : Bytes} {d : UInt8} (hName : ch '/' ∉ name)
    (hVersion : ch '/' ∉ version) (hw : ∀ c ∈ w, Str.isLws c = true) (hSome : transport ≠ [])
    (hTransport : ∀ c ∈ transport, Str.isLws c = false) (hd : Str.isLws d = true)
    (hw' : ∀ c ∈ w', Str.isLws c = true) (hRest : s4.dropWhile Str.isLws = s4) :
    Headed s4 (name ++ ch '/' :: (version ++ ch '/' :: (w ++ (transport ++ d :: (w' ++ s4)))))

/-- A host, or a host and a port. -/
def Place (sent_by : Bytes) : Prop :=
  sent_by ≠ [] ∧ (ch ':' ∉ sent_by ∨ ∃ host w port, sent_by = host ++ ch ':' :: (w ++ port) ∧
    ch ':' ∉ host ∧ (∀ c ∈ w, Str.isLws c = true) ∧ port.dropWhile Str.isLws = port ∧
      (portText port).isSome)

/-- A value without parameters. -/
def Bare (b : Bytes) : Prop := ∃ s4, Headed s4 b ∧ ch ';' ∉ s4 ∧ Place s4

theorem dropWhile_of_plain {t r : Bytes} (hSome : t ≠ []) (ht : ∀ c ∈ t, Str.isLws c = false) :
    (t ++ r).dropWhile Str.isLws = t ++ r := by
  obtain ⟨c, t, rfl⟩ := List.exists_cons_of_ne_nil hSome
  exact List.dropWhile_cons_of_neg (Bool.eq_false_iff.mp (ht c List.mem_cons_self))

theorem headText_append {name version w transport r : Bytes} {d : UInt8} (hName : ch '/' ∉ name)
    (hVersion : ch '/' ∉ version) (hw : ∀ c ∈ w, Str.isLws c = true) (hSome : transport ≠ [])
    (hTransport : ∀ c ∈ transport, Str.isLws c = false) (hd : Str.isLws d = true) :
    headText (name ++ ch '/' :: (version ++ ch '/' :: (w ++ (transport ++ d :: r)))) =
      some (name.rdropWhile Str.isLws, (version.dropWhile Str.isLws).rdropWhile Str.isLws, transport,
        r.dropWhile Str.isLws) := by
  rw [headText, cut3_append hName hVersion]
  simp only [Option.bind_eq_bind, Option.bind_some]
  rw [List.dropWhile_append_of_pos hw, dropWhile_of_plain hSome hTransport, cutLws_append hTransport hd]
  simp only [Option.bind_some, List.dropWhile_idempotent]
  rfl

theorem Headed.headText {s4 b : Bytes} (h : Headed s4 b) :
    ∃ name version transport, headText b = some (name, version, transport, s4) := by
  cases h with
  | @mk name version w transport w' d hName hVersion hw hSome hTransport hd hw' hRest =>
    have hHead := headText_append (r := w' ++ s4) hName hVersion hw hSome hTransport hd
    rw [List.dropWhile_append_of_pos hw', hRest] at hHead
    exact ⟨_, _, _, hHead⟩

theorem headText_some {b name version transport s4 : Bytes}
    (h : headText b = some (name, version, transport, s4)) :
    Headed s4 b ∧ ch '/' ∉ name ∧ name.rdropWhile Str.isLws = name ∧ ch '/' ∉ version ∧
      version.dropWhile Str.isLws = version ∧ version.rdropWhile Str.isLws = version ∧
      transport ≠ [] ∧ (∀ c ∈ transport, Str.isLws c = false) ∧ s4.dropWhile Str.isLws = s4 := by
  rw [headText] at h
  obtain ⟨⟨n, v, r⟩, hCut, hTail⟩ := Option.bind_eq_some_iff.mp h
  obtain ⟨⟨t, z⟩, hLws, hOut⟩ := Option.bind_eq_some_iff.mp hTail
  obtain ⟨rfl, hName, hVersion⟩ := cut3_some hCut
  obtain ⟨rfl, rfl, rfl, rfl⟩ : n.rdropWhile Str.isLws = name ∧
      (v.dropWhile Str.isLws).rdropWhile Str.isLws = version ∧ t = transport ∧
      z.dropWhile Str.isLws = s4 := by simpa using hOut
  obtain ⟨-, hNone⟩ | ⟨t', d, x, hIs, ht, hd, hSome⟩ := cutLws_cases (r.dropWhile Str.isLws)
  · rw [hNone] at hLws
    cases hLws
  · rw [hSome] at hLws
    obtain ⟨rfl, rfl⟩ := Prod.mk.inj (Option.some.inj hLws)
    have hTransport : t' ≠ [] := by
      rintro rfl
      have hHead := List.head?_dropWhile_not Str.isLws r
      rw [hIs] at hHead
      simp [hd] at hHead
    have hParts : r = r.takeWhile Str.isLws ++ (t' ++ d :: (x.takeWhile Str.isLws ++
        (x.dropWhile Str.isLws).dropWhile Str.isLws)) := by
      rw [List.dropWhile_idempotent, List.takeWhile_append_dropWhile, ← hIs,
        List.takeWhile_append_dropWhile]
    refine ⟨?_, fun hIn => hName (Trim.mem_of_rdropWhile hIn), List.rdropWhile_idempotent _ _,
      fun hIn => hVersion (Trim.mem_of_dropWhile (Trim.mem_of_rdropWhile hIn)), ?_,
      List.rdropWhile_idempotent _ _, hTransport, ht, List.dropWhile_idempotent _ _⟩
    · rw [hParts]
      exact .mk hName hVersion (fun c hc => List.mem_takeWhile_imp hc) hTransport ht hd
        (fun c hc => List.mem_takeWhile_imp hc) (List.dropWhile_idempotent _ _)
    · rw [← Trim.trim_comm, List.dropWhile_idempotent]

theorem place_iff {sent_by : Bytes} : (placeText sent_by).isSome ↔ Place sent_by := by
  rw [placeText, Place]
  split
  · rename_i hNone
    simp [hNone]
  · rename_i hSome
    simp only [ne_eq, hSome, not_false_eq_true, true_and]
    obtain ⟨hNot, hCut⟩ | ⟨a, r, rfl, hFirst, hCut⟩ := cut_cases (ch ':') sent_by
    · rw [hCut]
      simp [hNot]
    · rw [hCut]
      simp only [Option.isSome_map]
      constructor
      · intro hPort
        exact Or.inr ⟨a, r.takeWhile Str.isLws, r.dropWhile Str.isLws,
          by rw [List.takeWhile_append_dropWhile], hFirst, fun c hc => List.mem_takeWhile_imp hc,
          List.dropWhile_idempotent _ _, hPort⟩
      · rintro (hNot | ⟨host, w, port, hIs, hHost, hw, hTrimmed, hPort⟩)
        · exact absurd (by simp) hNot
        · have hSame := cut_append (b := r) hFirst
          rw [hIs, cut_append hHost] at hSame
          obtain ⟨-, rfl⟩ := Prod.mk.inj (Option.some.inj hSame)
          rwa [List.dropWhile_append_of_pos hw, hTrimmed]

end Via

end Microsippy
