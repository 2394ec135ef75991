import Microsippy.Copies
import Microsippy.DialogUris
import Microsippy.HdrLookup
import Microsippy.Tm.Filled
import Microsippy.World

/-! # Route sets

The Request-URI and the Route headers of a dialog's requests against RFC 3261 12.2.1.1. The client
side emits bare URIs, the server side the Record-Route values as they came.
-/

namespace Microsippy

set_option autoImplicit false

/-! ## Texts of URIs -/

/-- The URI that a receiver parses a Route value to. -/
def uriOf (v : Bytes) : Option Bytes :=
  (NameAddr.parseParts (fun _ => .zero) (Str.lit v)).map fun n => Mem.read (fun _ => .zero) n.addr_spec

/-- The names of the parameters of a URI. -/
def uriParamNames (uri : Bytes) : List Bytes :=
  match Uri.parseParts (fun _ => .zero) (Str.lit uri) with
  | some up => up.parameters.map fun p => Mem.read (fun _ => .zero) p.token
  | none => []

/-- Whether a URI has a parameter, in any spelling. -/
def uriHas (name : String) (uri : Bytes) : Bool :=
  (uriParamNames uri).any fun n => decide (CiEq n (bytes name))

/-- A URI without its headers. -/
def uriNoHdrs (uri : Bytes) : Bytes := uri.takeWhile (· != ch '?')

/-- A URI that stands for itself without brackets. -/
def Bare (uri : Bytes) : Prop := ch '<' ∉ uri ∧ ch ';' ∉ uri

instance (uri : Bytes) : Decidable (Bare uri) := inferInstanceAs (Decidable (_ ∧ _))

/-- The Request-URI and the Route headers for a remote target and a route set. A strict route is to
have no parameters that a Request-URI may not have. -/
def RfcTarget (remote first : Bytes) (rest : List Bytes) (request_uri : Bytes)
    (routes : List (Option Bytes)) : Prop :=
  if uriHas "lr" first then request_uri = remote ∧ routes = (first :: rest).map some
  else request_uri = uriNoHdrs first ∧ uriHas "method" first = false ∧
    routes = (rest ++ [remote]).map some

theorem uriOf_read (m : Mem) (s : Str) :
    (NameAddr.parseParts m s).map (fun n => m.read n.addr_spec) = uriOf (m.read s) := by
  have hSame : Same m (fun _ => .zero) s (Str.lit (m.read s)) := by rw [Same, Mem.read_lit]
  have hRel := NameAddr.parseParts_same hSame
  rw [uriOf]
  cases hx : NameAddr.parseParts m s <;>
    cases hy : NameAddr.parseParts (fun _ => .zero) (Str.lit (m.read s)) <;>
    rw [hx, hy] at hRel <;> cases hRel
  · rfl
  · rename_i h
    rw [Option.map_some, Option.map_some, h]

theorem uriHasParam_iff {m : Mem} {s : Str} {up : Uri} {name : Bytes}
    (hParts : Uri.parseParts m s = some up) :
    uriHasParam m up name = true ↔ name ∈ uriParamNames (m.read s) := by
  have hSame : Same m (fun _ => .zero) s (Str.lit (m.read s)) := by rw [Same, Mem.read_lit]
  have hRel := Uri.parseParts_same hSame
  have hNames : uriParamNames (m.read s) = up.parameters.map fun p => m.read p.token := by
    rw [uriParamNames]
    cases hy : Uri.parseParts (fun _ => .zero) (Str.lit (m.read s)) with
    | none => rw [hParts, hy] at hRel; cases hRel
    | some up' =>
      rw [hParts, hy] at hRel
      cases hRel with
      | some hTokens =>
        simp only
        generalize up.parameters = pps at hTokens ⊢
        generalize up'.parameters = pps' at hTokens ⊢
        induction hTokens with
        | nil => rfl
        | cons h _ ih =>
          rw [List.map_cons, List.map_cons, h]
          exact congrArg _ ih
  rw [hNames, uriHasParam, List.any_eq_true, List.mem_map]
  constructor
  · rintro ⟨pp, hMem, hBoth⟩
    rw [Bool.and_eq_true, beq_iff_eq, beq_iff_eq] at hBoth
    exact ⟨pp, hMem, hBoth.2⟩
  · rintro ⟨pp, hMem, hRead⟩
    refine ⟨pp, hMem, ?_⟩
    rw [Bool.and_eq_true, beq_iff_eq, beq_iff_eq]
    exact ⟨by rw [← hRead, Mem.length_read], hRead⟩

theorem cutHeaders_read (m : Mem) (s : Str) : m.read (cutHeaders m s) = uriNoHdrs (m.read s) := by
  rw [cutHeaders, uriNoHdrs, List.takeWhile_eq_take_findIdx_not]
  have hNot : (fun c : UInt8 => !(c != ch '?')) = (· == ch '?') := by
    funext c
    rw [bne, Bool.not_not]
  rw [hNot]
  cases hAt : s.chr m (ch '?') with
  | none =>
    rw [Str.chr, List.findIdx?_eq_none_iff_findIdx_eq] at hAt
    rw [hAt, List.take_length]
  | some l =>
    have hLt := chr_lt_l hAt
    rw [Str.chr, List.findIdx?_eq_some_iff_findIdx_eq] at hAt
    have hPart := Mem.read_part m s (k := 0) (l := l) (by omega)
    rw [hAt.2]
    exact hPart

theorem splitElem_lt {m : Mem} {x y z : Str} {dlm : UInt8} (h : x.splitElem m dlm = some (y, z)) :
    y.l < x.l ∧ z.l < x.l := by
  simp only [Str.splitElem, Option.map_eq_some_iff, Prod.mk.injEq] at h
  obtain ⟨r, hAt, rfl, rfl⟩ := h
  have hLt := chr_lt_l hAt
  constructor
  · split
    · exact Nat.lt_of_le_of_lt (Nat.zero_le _) hLt
    · exact Nat.lt_of_le_of_lt (Nat.sub_le _ _) hLt
  · split
    · exact Nat.lt_of_le_of_lt (Nat.zero_le _) hLt
    · refine Nat.lt_of_le_of_lt (Nat.sub_le _ _) ?_
      simp only
      omega

theorem splitElem_none {m : Mem} {x : Str} {dlm : UInt8} :
    x.splitElem m dlm = none ↔ dlm ∉ m.read x := by
  rw [Str.splitElem, Option.map_eq_none_iff, Str.chr, List.findIdx?_eq_none_iff]
  constructor
  · intro h hMem
    have hNot := h dlm hMem
    simp at hNot
  · intro h c hc
    exact beq_eq_false_iff_ne.mpr fun hIs => h (hIs ▸ hc)

theorem uriOf_bare {uri : Bytes} (h : Bare uri) : uriOf uri = some uri := by
  have hLt : (Str.lit uri).splitElem (fun _ => .zero) (ch '<') = none := by
    rw [splitElem_none, Mem.read_lit]
    exact h.1
  have hSemi : (Str.lit uri).splitElem (fun _ => .zero) (ch ';') = none := by
    rw [splitElem_none, Mem.read_lit]
    exact h.2
  rw [uriOf, NameAddr.parseParts, hLt, hSemi]
  simp

/-- What is left of a value is no longer than the value, and shorter unless it is bare. -/
theorem uriOf_length {v uri : Bytes} (h : uriOf v = some uri) :
    uri.length ≤ v.length ∧ (uri.length = v.length → Bare v) := by
  obtain ⟨n, hParts, rfl⟩ := Option.map_eq_some_iff.mp h
  rw [Mem.length_read]
  have hLen : (Str.lit v).l = v.length := rfl
  rw [NameAddr.parseParts] at hParts
  cases hx : (Str.lit v).splitElem (fun _ => .zero) (ch '<') with
  | none =>
    have hNoLt := splitElem_none.mp hx
    cases hy : (Str.lit v).splitElem (fun _ => .zero) (ch ';') with
    | none =>
      have hNoSemi := splitElem_none.mp hy
      rw [Mem.read_lit] at hNoLt hNoSemi
      rw [hx, hy] at hParts
      obtain rfl := Option.some.inj hParts
      exact ⟨le_rfl, fun _ => ⟨hNoLt, hNoSemi⟩⟩
    | some q =>
      rw [hx, hy] at hParts
      obtain rfl := Option.some.inj hParts
      have hShort := (splitElem_lt hy).1
      simp only
      omega
  | some p =>
    rw [hx] at hParts
    have hShort := (splitElem_lt hx).2
    cases hy : p.2.splitElem (fun _ => .zero) (ch '>') with
    | none =>
      simp only [hy] at hParts
      cases hParts
    | some q =>
      have hShorter := (splitElem_lt hy).1
      simp only [hy, Option.bind_eq_bind] at hParts
      have hSpec : n.addr_spec = q.1 := by
        split at hParts
        · obtain rfl := Option.some.inj hParts
          rfl
        · split at hParts
          · cases hParts
          · obtain rfl := Option.some.inj hParts
            rfl
      rw [hSpec]
      omega

theorem uriOf_iff {uri : Bytes} : uriOf uri = some uri ↔ Bare uri :=
  ⟨fun h => (uriOf_length h).2 rfl, uriOf_bare⟩

/-- A URI with a parameter has a semicolon. -/
theorem semicolon_of_param {uri name : Bytes} (h : name ∈ uriParamNames uri) : ch ';' ∈ uri := by
  by_contra hNone
  rw [uriParamNames] at h
  cases hParts : Uri.parseParts (fun _ => .zero) (Str.lit uri) with
  | none =>
    rw [hParts] at h
    cases h
  | some up =>
    rw [hParts] at h
    simp only [Uri.parseParts, Option.bind_eq_bind, Option.bind_eq_some_iff] at hParts
    obtain ⟨⟨proto, iup⟩, hProto, ⟨host, port⟩, -, hUp⟩ := hParts
    obtain ⟨hRead, -, -⟩ := Str.read_split hProto
    rw [Mem.read_lit] at hRead
    have hIup : ch ';' ∉ Mem.read (fun _ => .zero) iup := fun hMem =>
      hNone (hRead ▸ List.mem_append_right _ (List.mem_cons_of_mem _ hMem))
    have hRest : ch ';' ∉ Mem.read (fun _ => .zero) (Uri.splitUser (fun _ => .zero) iup).2.2 := by
      rw [Uri.splitUser]
      cases hAt : iup.splitElemNlws (fun _ => .zero) (ch '@') with
      | none => exact hIup
      | some q =>
        obtain ⟨hUser, -, -⟩ := Str.read_split (show iup.split _ _ = some (q.1, q.2) from hAt)
        have hAfter : ch ';' ∉ Mem.read (fun _ => .zero) q.2 := fun hMem =>
          hIup (hUser ▸ List.mem_append_right _ (List.mem_cons_of_mem _ hMem))
        simp only
        split <;> exact hAfter
    have hSpaces : (Uri.splitSpaces (fun _ => .zero)
        (Uri.splitUser (fun _ => .zero) iup).2.2).2.1 = Str.null := by
      have hNoSemi : (Uri.splitUser (fun _ => .zero) iup).2.2.split (fun _ => .zero) (ch ';') = none :=
        Str.split_eq_none hRest
      rw [Uri.splitSpaces, Str.splitElemNlws, hNoSemi]
      simp only
      split <;> rfl
    obtain rfl := Option.some.inj hUp
    simp only [hSpaces] at h
    cases h

/-! ## Lists of routes -/

/-- Routes that do not grow when they are parsed, one place off. -/
theorem exists_last_of_shift {g : Bytes → Option Bytes}
    (hg : ∀ r uri, g r = some uri → uri.length ≤ r.length) {first : Bytes} {rest : List Bytes}
    {last : Option Bytes} (h : rest.map g ++ [last] = (first :: rest).map some) :
    ∃ uri, last = some uri ∧ first.length ≤ uri.length := by
  induction rest generalizing first with
  | nil =>
    obtain ⟨rfl, -⟩ := List.cons.inj h
    exact ⟨first, rfl, le_rfl⟩
  | cons r rs ih =>
    obtain ⟨hFirst, hRest⟩ := List.cons.inj h
    obtain ⟨uri, hLast, hLe⟩ := ih hRest
    exact ⟨uri, hLast, Nat.le_trans (hg r first hFirst) hLe⟩

theorem semicolon_of_uriHas {name : String} {uri : Bytes} (h : uriHas name uri = true) :
    ch ';' ∈ uri := by
  obtain ⟨n, hMem, -⟩ := List.any_eq_true.mp h
  exact semicolon_of_param hMem

theorem uriHas_lr {uri : Bytes} (h : bytes "lr" ∈ uriParamNames uri) : uriHas "lr" uri = true :=
  List.any_eq_true.mpr ⟨_, h, decide_eq_true rfl⟩

/-- Where `lr` is spelled in another way, strict routing is never right. -/
theorem not_rfcTarget_of_other {g : Bytes → Option Bytes}
    (hg : ∀ r uri, g r = some uri → uri.length ≤ r.length) (remote : Bytes) {first : Bytes}
    (rest : List Bytes) (hHas : uriHas "lr" first = true) :
    ¬ RfcTarget remote first rest (uriNoHdrs first) (rest.map g ++ [uriOf remote]) := by
  intro h
  rw [RfcTarget, if_pos hHas] at h
  obtain ⟨hRemote, hRoutes⟩ := h
  obtain ⟨uri, hUri, hLe⟩ := exists_last_of_shift hg hRoutes
  obtain ⟨hShort, hBare⟩ := uriOf_length hUri
  have hCut : (uriNoHdrs first).length ≤ first.length := (List.takeWhile_sublist _).length_le
  rw [hRemote] at hCut
  have hSame : uriNoHdrs first = first :=
    List.Sublist.eq_of_length (List.takeWhile_sublist _) (by rw [hRemote]; omega)
  refine (hBare (by omega)).2 ?_
  rw [← hRemote, hSame]
  exact semicolon_of_uriHas hHas

theorem map_uriOf_iff {uris : List Bytes} : uris.map uriOf = uris.map some ↔ ∀ u ∈ uris, Bare u := by
  rw [List.map_inj_left]
  exact forall₂_congr fun u _ => uriOf_iff

/-- Bare routes are right just when the first is strict and the others need no brackets. -/
theorem rfcTarget_bare_iff {remote first : Bytes} {rest : List Bytes} :
    (if bytes "lr" ∈ uriParamNames first then
      RfcTarget remote first rest remote ((first :: rest).map uriOf)
    else RfcTarget remote first rest (uriNoHdrs first) ((rest ++ [remote]).map uriOf)) ↔
      uriHas "lr" first = false ∧ uriHas "method" first = false ∧ ∀ u ∈ rest ++ [remote], Bare u := by
  split
  · rename_i hLr
    have hHas := uriHas_lr hLr
    rw [RfcTarget, if_pos hHas, map_uriOf_iff]
    constructor
    · rintro ⟨-, hBare⟩
      exact absurd (semicolon_of_param hLr) (hBare first List.mem_cons_self).2
    · rintro ⟨hNot, -⟩
      rw [hHas] at hNot
      cases hNot
  · cases hHas : uriHas "lr" first with
    | true =>
      have hNot := not_rfcTarget_of_other (fun r uri h => (uriOf_length h).1) remote rest hHas
      rw [List.map_append]
      exact ⟨fun h => absurd h hNot, fun h => by cases h.1⟩
    | false =>
      rw [RfcTarget, hHas, if_neg Bool.false_ne_true, map_uriOf_iff]
      simp

/-- Routes as they came are right just when the first is loose, or strict and the remote target needs
no brackets. -/
theorem rfcTarget_raw_iff {remote first : Bytes} {rest : List Bytes} :
    (if bytes "lr" ∈ uriParamNames first then
      RfcTarget remote first rest remote ((first :: rest).map some)
    else RfcTarget remote first rest (uriNoHdrs first) (rest.map some ++ [uriOf remote])) ↔
      bytes "lr" ∈ uriParamNames first ∨
        uriHas "lr" first = false ∧ uriHas "method" first = false ∧ Bare remote := by
  split
  · rename_i hLr
    rw [RfcTarget, if_pos (uriHas_lr hLr)]
    exact ⟨fun _ => Or.inl hLr, fun _ => ⟨rfl, rfl⟩⟩
  · rename_i hLr
    cases hHas : uriHas "lr" first with
    | true =>
      have hNot := not_rfcTarget_of_other (g := some)
        (fun r uri h => by rw [Option.some.inj h]) remote rest hHas
      refine ⟨fun h => absurd h hNot, ?_⟩
      rintro (h | h)
      · exact absurd h hLr
      · cases h.1
    | false =>
      rw [RfcTarget, hHas, if_neg Bool.false_ne_true, List.map_append, List.append_cancel_left_eq]
      simp [hLr, uriOf_iff]

/-! ## Copies on the heap of the parameters -/

theorem settled_none {hp : Heap} (h : hp.slot = none) (s : Str) : hp.Settled s := by
  intro i _ hSlot
  rw [h] at hSlot
  cases hSlot

theorem heapStrDup_ok {m : Mem} {src s : Str} {hp hp' : Heap}
    (hRun : (heapStrDup m src).run hp = some (.ok s, hp')) :
    hp.Grows hp' ∧ hp'.Laid s ∧ (hp'.mem m).read s = (hp.mem m).read src := by
  have hAppend := Op.failWith_ok.mp hRun
  obtain ⟨hGrows, -, hRead, -⟩ := Heap.append_ok hAppend
  exact ⟨hGrows, (Heap.append_laid hAppend).1, hRead⟩

theorem dialogCopyAddr_grows {m : Mem} {src addr : Addr} {hp hp' : Heap}
    (hRun : (dialogCopyAddr m src).run hp = some (.ok addr, hp')) : hp.Grows hp' := by
  rw [dialogCopyAddr] at hRun
  obtain ⟨host, hp₁, hHost, hRun⟩ := Op.bind_ok.mp hRun
  obtain ⟨-, rfl⟩ := Op.pure_ok.mp hRun
  split at hHost
  · obtain ⟨-, rfl⟩ := Op.pure_ok.mp hHost
    exact Std.Refl.refl _
  · exact (heapStrDup_ok hHost).1

theorem appendAll_ok {m : Mem} {srcs ss : List Str} {hp hp' : Heap}
    (hSettled : ∀ s ∈ srcs, hp.Settled s)
    (hRun : (appendAll m srcs).run hp = some (.ok ss, hp')) :
    hp.Grows hp' ∧ (∀ s ∈ ss, hp'.Laid s) ∧
      ss.map (hp'.mem m).read = srcs.map (hp.mem m).read := by
  induction srcs generalizing hp ss with
  | nil =>
    obtain ⟨rfl, rfl⟩ := Op.pure_ok.mp hRun
    exact ⟨Std.Refl.refl _, List.forall_mem_nil _, rfl⟩
  | cons src srcs ih =>
    rw [appendAll] at hRun
    obtain ⟨s, hp₁, hFirst, hRun⟩ := Op.bind_ok.mp hRun
    obtain ⟨rest, hp₂, hRest, hRun⟩ := Op.bind_ok.mp hRun
    obtain ⟨rfl, rfl⟩ := Op.pure_ok.mp hRun
    obtain ⟨hGrows, -, hRead, -⟩ := Heap.append_ok hFirst
    obtain ⟨hOwn, -⟩ := Heap.append_laid hFirst
    obtain ⟨hGrows', hOwns, hReads⟩ :=
      ih (fun s hs => hGrows.settled (hSettled s (List.mem_cons_of_mem _ hs))) hRest
    refine ⟨IsTrans.trans _ _ _ hGrows hGrows', ?_, ?_⟩
    · rintro t (_ | ⟨_, ht⟩)
      · exact hGrows'.laid hOwn
      · exact hOwns t ht
    · rw [List.map_cons, List.map_cons, hGrows'.read hOwn.settled, hRead, hReads]
      refine congrArg _ (List.map_congr_left fun s hs => ?_)
      exact hGrows.read (hSettled s (List.mem_cons_of_mem _ hs)) m

/-- More of a heap is taken and nothing written. -/
structure Heap.Widens (hp hp' : Heap) : Prop where
  slot : hp'.slot = hp.slot
  le : hp.alen ≤ hp'.alen
  first : hp'.first = hp.first

instance : IsPreorder Heap Heap.Widens where
  refl _ := ⟨rfl, Nat.le_refl _, rfl⟩
  trans _ _ _ h h' := ⟨h'.slot.trans h.slot, Nat.le_trans h.le h'.le, h'.first.trans h.first⟩

theorem Heap.Widens.grows {hp hp' : Heap} (h : hp.Widens hp') : hp.Grows hp' :=
  ⟨h.slot, h.le, fun _ _ => congrFun h.first _⟩

theorem Heap.Widens.mem_eq {hp hp' : Heap} (h : hp.Widens hp') (m : Mem) : hp'.mem m = hp.mem m := by
  rw [Heap.mem, Heap.mem, h.slot, h.first]

theorem widens_alloc {len start : Nat} {hp hp' : Heap}
    (hRun : (Heap.alloc len).run hp = some (.ok start, hp')) : hp.Widens hp' := by
  have hGrows := Heap.keeps_alloc _ _ _ _ hRun
  obtain ⟨-, -, rfl⟩ := Heap.reserve_ok.mp hRun
  exact ⟨rfl, hGrows.le, rfl⟩

theorem widens_extendPairs (size : Nat → Nat) (start n : Nat) (pps : List TvPair) :
    Op.Keeps Heap.Widens (extendPairs size start n pps) := by
  induction pps generalizing n with
  | nil => exact .pure ()
  | cons pp pps ih =>
    exact .bind (.bind .get fun _ => .bind (.require _ _) fun _ =>
      .modify fun _ => ⟨rfl, Nat.le_add_right _ _, rfl⟩) fun _ => ih (n + 1)

theorem Uri.parse_widens {m : Mem} {s : Str} {up : Uri} {hp hp' : Heap}
    (hRun : (Uri.parse m s).run hp = some (.ok up, hp')) :
    hp.Widens hp' ∧ Uri.parseParts (hp.mem m) s = some up := by
  rw [Uri.parse] at hRun
  obtain ⟨start, hp₁, hAlloc, hRun⟩ := Op.bind_ok.mp hRun
  obtain ⟨_, _, hGet, hRun⟩ := Op.bind_ok.mp hRun
  obtain ⟨rfl, rfl⟩ := Op.get_ok.mp hGet
  obtain ⟨up', _, hParts, hRun⟩ := Op.bind_ok.mp (Op.cleanup_ok.mp hRun)
  obtain ⟨hFound, rfl⟩ := Op.orElse_ok.mp hParts
  obtain ⟨_, hp₂, hParams, hRun⟩ := Op.bind_ok.mp hRun
  obtain ⟨_, hp₃, hHdrs, hRun⟩ := Op.bind_ok.mp hRun
  obtain ⟨rfl, rfl⟩ := Op.pure_ok.mp hRun
  have hFirst := widens_alloc hAlloc
  have hSecond := widens_extendPairs _ _ _ _ _ _ _ hParams
  have hThird := widens_extendPairs _ _ _ _ _ _ _ hHdrs
  rw [hFirst.mem_eq] at hFound
  exact ⟨IsTrans.trans _ _ _ hFirst (IsTrans.trans _ _ _ hSecond hThird), hFound⟩

theorem NameAddr.parse_widens {m : Mem} {s : Str} {nap : NameAddr} {hp hp' : Heap}
    (hRun : (NameAddr.parse m s).run hp = some (.ok nap, hp')) :
    hp.Widens hp' ∧ NameAddr.parseParts (hp.mem m) s = some nap := by
  rw [NameAddr.parse] at hRun
  obtain ⟨start, hp₁, hAlloc, hRun⟩ := Op.bind_ok.mp hRun
  obtain ⟨_, _, hGet, hRun⟩ := Op.bind_ok.mp hRun
  obtain ⟨rfl, rfl⟩ := Op.get_ok.mp hGet
  obtain ⟨nap', _, hParts, hRun⟩ := Op.bind_ok.mp (Op.cleanup_ok.mp hRun)
  obtain ⟨hFound, rfl⟩ := Op.orElse_ok.mp hParts
  obtain ⟨_, hp₂, hParams, hRun⟩ := Op.bind_ok.mp hRun
  obtain ⟨rfl, rfl⟩ := Op.pure_ok.mp hRun
  have hFirst := widens_alloc hAlloc
  have hSecond := widens_extendPairs _ _ _ _ _ _ _ hParams
  rw [hFirst.mem_eq] at hFound
  exact ⟨IsTrans.trans _ _ _ hFirst hSecond, hFound⟩

theorem parseTargetUri_ok {m : Mem} {s : Str} {up : Uri} {hp hp' : Heap}
    (hRun : (parseTargetUri m s).run hp = some (.ok up, hp')) :
    hp.Widens hp' ∧ Uri.parseParts (hp.mem m) s = some up := by
  rw [parseTargetUri] at hRun
  obtain ⟨up', hp₁, hParse, hRun⟩ := Op.bind_ok.mp hRun
  obtain ⟨_, _, hHost, hRun⟩ := Op.bind_ok.mp hRun
  obtain ⟨-, rfl⟩ := Op.require_ok.mp hHost
  obtain ⟨rfl, rfl⟩ := Op.pure_ok.mp hRun
  exact Uri.parse_widens (Op.failWith_ok.mp hParse)

theorem laid_cutHeaders {hp : Heap} {m : Mem} {s : Str} (h : hp.Laid s) : hp.Laid (cutHeaders m s) := by
  rw [cutHeaders]
  split
  · rename_i l hAt
    have hLt := chr_lt_l hAt
    refine h.imp_right fun ⟨i, hSrc, hSlot, hEnd⟩ => ⟨i, hSrc, hSlot, ?_⟩
    simp only
    omega
  · exact h

/-! ## Resolving the target -/

/-- The Request-URI and the routes that the code takes for a route set. -/
def Resolved (rd : Str → Bytes) (remote first : Bytes) (rest : List Bytes) (request_uri : Str)
    (routes : List Str) : Prop :=
  if bytes "lr" ∈ uriParamNames first then rd request_uri = remote ∧ routes.map rd = first :: rest
  else rd request_uri = uriNoHdrs first ∧ routes.map rd = rest ++ [remote]

theorem Resolved.grows {m : Mem} {hp hp' : Heap} {remote first : Bytes} {rest : List Bytes}
    {request_uri : Str} {routes : List Str}
    (h : Resolved (hp.mem m).read remote first rest request_uri routes) (hGrows : hp.Grows hp')
    (hUri : hp.Laid request_uri) (hRoutes : ∀ s ∈ routes, hp.Laid s) :
    Resolved (hp'.mem m).read remote first rest request_uri routes := by
  have hTexts : routes.map (hp'.mem m).read = routes.map (hp.mem m).read :=
    List.map_congr_left fun s hs => hGrows.read (hRoutes s hs).settled m
  rw [Resolved, hGrows.read hUri.settled, hTexts]
  exact h

theorem dialogResolveTarget_ok {m : Mem} {basep next_target : Addr} {remote_targetp request_uri : Str}
    {route_src routes : List Str} {hp hp' : Heap} {first : Bytes} {rest : List Bytes}
    (hSettled : ∀ s ∈ route_src, hp.Settled s)
    (hFirst : route_src.reverse.map (hp.mem m).read = first :: rest)
    (hRun : (dialogResolveTarget m basep remote_targetp route_src true).run hp =
      some (.ok (request_uri, next_target, routes), hp')) :
    hp.Grows hp' ∧ hp'.Laid request_uri ∧ (∀ s ∈ routes, hp'.Laid s) ∧
      Resolved (hp'.mem m).read ((hp.mem m).read remote_targetp) first rest request_uri routes := by
  cases route_src with
  | nil => cases hFirst
  | cons src srcs =>
    rw [dialogResolveTarget] at hRun
    obtain ⟨remote, hp₁, hCopy, hRun⟩ := Op.bind_ok.mp hRun
    obtain ⟨hGrows₁, hOwn, hRead⟩ := heapStrDup_ok hCopy
    obtain ⟨⟨uri, target, set⟩, hp₂, hSet, hRun⟩ := Op.bind_ok.mp hRun
    obtain ⟨up, hp₃, hTarget, hRun⟩ := Op.bind_ok.mp hRun
    obtain ⟨hWidens₃, -⟩ := parseTargetUri_ok hTarget
    have hGrows₃ := hWidens₃.grows
    obtain ⟨hIs, rfl⟩ := Op.pure_ok.mp hRun
    obtain ⟨rfl, hTwo⟩ := Prod.mk.inj hIs
    obtain ⟨-, rfl⟩ := Prod.mk.inj hTwo
    obtain ⟨_, hp₄, hAlloc, hSet⟩ := Op.bind_ok.mp hSet
    have hGrows₄ := Heap.keeps_alloc _ _ _ _ (Op.failWith_ok.mp hAlloc)
    have hGrows₁₄ := IsTrans.trans (r := Heap.Grows) _ _ _ hGrows₁ hGrows₄
    obtain ⟨copies, hp₅, hCopies, hSet⟩ := Op.bind_ok.mp hSet
    have hSrcs : ∀ s ∈ (src :: srcs).reverse, hp.Settled s := fun s hs =>
      hSettled s (List.mem_reverse.mp hs)
    obtain ⟨hGrows₅, hOwns, hReads⟩ :=
      appendAll_ok (fun s hs => hGrows₁₄.settled (hSrcs s hs)) (Op.failWith_ok.mp hCopies)
    have hTexts : copies.map (hp₅.mem m).read = first :: rest := by
      rw [hReads, ← hFirst]
      exact List.map_congr_left fun s hs => hGrows₁₄.read (hSrcs s hs) m
    cases copies with
    | nil => cases hTexts
    | cons one others =>
      obtain ⟨hOne, hOthers⟩ := List.cons.inj hTexts
      obtain ⟨route, hp₆, hParse, hSet⟩ := Op.bind_ok.mp hSet
      obtain ⟨hWidens, hParts⟩ := parseTargetUri_ok hParse
      obtain ⟨_, _, hGet, hSet⟩ := Op.bind_ok.mp hSet
      obtain ⟨rfl, rfl⟩ := Op.get_ok.mp hGet
      have hRemoteRead : (hp₆.mem m).read remote = (hp.mem m).read remote_targetp := by
        rw [hWidens.mem_eq, hGrows₅.read (hGrows₄.laid hOwn).settled, hGrows₄.read hOwn.settled, hRead]
      have hLr : uriHasParam (hp₅.mem m) route (bytes "lr") = true ↔ _ := uriHasParam_iff hParts
      simp only [List.headD_cons] at hLr hSet
      rw [hOne] at hLr
      rw [← hWidens.mem_eq m] at hLr hOthers
      have hGrows₆ := hWidens.grows
      have hAll : hp.Grows hp₆ :=
        IsTrans.trans _ _ _ hGrows₁₄ (IsTrans.trans _ _ _ hGrows₅ hGrows₆)
      have hRemoteOwn : hp₆.Laid remote := hGrows₆.laid (hGrows₅.laid (hGrows₄.laid hOwn))
      have hOneOwn : hp₆.Laid one := hGrows₆.laid (hOwns one List.mem_cons_self)
      have hOthersOwn : ∀ s ∈ others, hp₆.Laid s := fun s hs =>
        hGrows₆.laid (hOwns s (List.mem_cons_of_mem _ hs))
      rw [← hWidens.mem_eq m] at hOne
      have hSome : hp₆ = hp₂ ∧ hp₆.Laid uri ∧ (∀ s ∈ set, hp₆.Laid s) ∧
          Resolved (hp₆.mem m).read ((hp.mem m).read remote_targetp) first rest uri set := by
        rw [Resolved]
        split at hSet
        · rename_i hFound
          obtain ⟨hPair, rfl⟩ := Op.pure_ok.mp hSet
          obtain ⟨rfl, hRest⟩ := Prod.mk.inj hPair
          obtain ⟨-, rfl⟩ := Prod.mk.inj hRest
          rw [if_pos (hLr.mp hFound), hRemoteRead, List.map_cons, hOne, hOthers]
          exact ⟨rfl, hRemoteOwn, List.forall_mem_cons.mpr ⟨hOneOwn, hOthersOwn⟩, rfl, rfl⟩
        · rename_i hNot
          obtain ⟨hPair, rfl⟩ := Op.pure_ok.mp hSet
          obtain ⟨rfl, hRest⟩ := Prod.mk.inj hPair
          obtain ⟨-, rfl⟩ := Prod.mk.inj hRest
          rw [if_neg fun hFound => hNot (hLr.mpr hFound), cutHeaders_read, hOne, List.tail_cons,
            List.map_append, hOthers, List.map_singleton, hRemoteRead]
          refine ⟨rfl, laid_cutHeaders hOneOwn, fun s hs => ?_, rfl, rfl⟩
          rcases List.mem_append.mp hs with hOther | hLast
          · exact hOthersOwn s hOther
          · exact List.mem_singleton.mp hLast ▸ hRemoteOwn
      obtain ⟨rfl, hUri, hRoutes, hResolved⟩ := hSome
      exact ⟨IsTrans.trans _ _ _ hAll hGrows₃, hGrows₃.laid hUri,
        fun s hs => hGrows₃.laid (hRoutes s hs), hResolved.grows hGrows₃ hUri hRoutes⟩

/-! ## Resolving the target on a heap of its own -/

section

variable {m : Mem} {hp hp' : Heap}

theorem mem_none (h : hp.slot = none) (m : Mem) : hp.mem m = m := by
  rw [Heap.mem, h]

/-- What is on a heap of its own is never written again. -/
theorem lit_none {s : Str} (hNone : hp.slot = none) (h : hp.Laid s) : ∃ b, s.src = .lit b := by
  obtain hLit | ⟨i, -, hSlot, -⟩ := h
  · exact hLit
  · rw [hNone] at hSlot
    cases hSlot

theorem heapStrDup_none {src s : Str} (hNone : hp.slot = none)
    (hRun : (heapStrDup m src).run hp = some (.ok s, hp')) :
    hp'.slot = none ∧ (∃ b, s.src = .lit b) ∧ m.read s = m.read src := by
  obtain ⟨hGrows, hLaid, hRead⟩ := heapStrDup_ok hRun
  have hNone' := hGrows.slot.trans hNone
  rw [mem_none hNone, mem_none hNone'] at hRead
  exact ⟨hNone', lit_none hNone' hLaid, hRead⟩

theorem appendAll_none {srcs ss : List Str} (hNone : hp.slot = none)
    (hRun : (Op.failWith TmError.NOSPC (appendAll m srcs)).run hp = some (.ok ss, hp')) :
    hp'.slot = none ∧ (∀ s ∈ ss, ∃ b, s.src = .lit b) ∧ ss.map m.read = srcs.map m.read := by
  obtain ⟨hGrows, hLaid, hReads⟩ :=
    appendAll_ok (fun s _ => settled_none hNone s) (Op.failWith_ok.mp hRun)
  have hNone' := hGrows.slot.trans hNone
  rw [mem_none hNone, mem_none hNone'] at hReads
  exact ⟨hNone', fun s hs => lit_none hNone' (hLaid s hs), hReads⟩

theorem parseTargetUri_none {s : Str} {up : Uri} (hNone : hp.slot = none)
    (hRun : (parseTargetUri m s).run hp = some (.ok up, hp')) :
    hp'.slot = none ∧ Uri.parseParts m s = some up := by
  obtain ⟨hWidens, hParts⟩ := parseTargetUri_ok hRun
  rw [mem_none hNone] at hParts
  exact ⟨hWidens.slot.trans hNone, hParts⟩

theorem alloc_none {len start : Nat} (hNone : hp.slot = none)
    (hRun : (Op.failWith TmError.NOSPC (Heap.alloc len)).run hp = some (.ok start, hp')) :
    hp'.slot = none :=
  (widens_alloc (Op.failWith_ok.mp hRun)).slot.trans hNone

theorem uasResolveTarget_none {basep next_target : Addr} {remote_targetp request_uri : Str}
    {record_routes routes : List Str} {first : Bytes} {rest : List Bytes} (hNone : hp.slot = none)
    (hFirst : record_routes.map (fun s => uriOf (m.read s)) = (first :: rest).map some)
    (hRun : (uasResolveTarget m basep remote_targetp record_routes).run hp =
      some (.ok (request_uri, next_target, routes), hp')) :
    hp'.slot = none ∧ (∀ s ∈ routes, ∃ b, s.src = .lit b) ∧
      if bytes "lr" ∈ uriParamNames first then
        m.read request_uri = m.read remote_targetp ∧
          routes.map (fun s => uriOf (m.read s)) = (first :: rest).map some
      else m.read request_uri = uriNoHdrs first ∧
        routes.map (fun s => uriOf (m.read s)) = rest.map some ++ [uriOf (m.read remote_targetp)] := by
  cases record_routes with
  | nil => cases hFirst
  | cons one others =>
    obtain ⟨hOne, hOthers⟩ := List.cons.inj hFirst
    have hOneUri : uriOf (m.read one) = some first := hOne
    have hUris : ∀ {ss ts : List Str}, ss.map m.read = ts.map m.read →
        ss.map (fun s => uriOf (m.read s)) = ts.map fun s => uriOf (m.read s) := by
      intro ss ts h
      have hMapped := congrArg (List.map uriOf) h
      rwa [List.map_map, List.map_map] at hMapped
    rw [uasResolveTarget] at hRun
    obtain ⟨raw, hp₁, hRaw, hRun⟩ := Op.bind_ok.mp hRun
    obtain ⟨hNone₁, -, hRawRead⟩ := heapStrDup_none hNone hRaw
    obtain ⟨rrp, hp₂, hParse, hRun⟩ := Op.bind_ok.mp hRun
    obtain ⟨hWidens, hParts⟩ := NameAddr.parse_widens (Op.failWith_ok.mp hParse)
    have hNone₂ := hWidens.slot.trans hNone₁
    rw [mem_none hNone₁] at hParts
    have hSpec : m.read rrp.addr_spec = first := by
      have hUri := uriOf_read m raw
      rw [hParts, hRawRead, hOneUri] at hUri
      exact Option.some.inj hUri
    obtain ⟨_, _, hSome, hRun⟩ := Op.bind_ok.mp hRun
    obtain ⟨-, rfl⟩ := Op.require_ok.mp hSome
    obtain ⟨route, hp₃, hRoute, hRun⟩ := Op.bind_ok.mp hRun
    obtain ⟨hNone₃, hRouteParts⟩ := parseTargetUri_none hNone₂ hRoute
    have hLr : uriHasParam m route (bytes "lr") = true ↔ _ := uriHasParam_iff hRouteParts
    rw [hSpec] at hLr
    obtain ⟨_, _, hGet, hRun⟩ := Op.bind_ok.mp hRun
    obtain ⟨rfl, rfl⟩ := Op.get_ok.mp hGet
    rw [mem_none hNone₃] at hRun
    split at hRun
    · rename_i hFound
      rw [if_pos (hLr.mp hFound)]
      obtain ⟨_, hp₄, hAlloc, hRun⟩ := Op.bind_ok.mp hRun
      have hNone₄ := alloc_none hNone₃ hAlloc
      obtain ⟨remote, hp₅, hRemote, hRun⟩ := Op.bind_ok.mp hRun
      obtain ⟨hNone₅, -, hRemoteRead⟩ := heapStrDup_none hNone₄ hRemote
      obtain ⟨copies, hp₆, hCopies, hRun⟩ := Op.bind_ok.mp hRun
      obtain ⟨hNone₆, hLits, hReads⟩ := appendAll_none hNone₅ hCopies
      obtain ⟨hPair, rfl⟩ := Op.pure_ok.mp hRun
      obtain ⟨rfl, hTwo⟩ := Prod.mk.inj hPair
      obtain ⟨-, rfl⟩ := Prod.mk.inj hTwo
      exact ⟨hNone₆, hLits, hRemoteRead, (hUris hReads).trans hFirst⟩
    · rename_i hNot
      rw [if_neg fun hFound => hNot (hLr.mpr hFound)]
      obtain ⟨_, hp₄, hAlloc, hRun⟩ := Op.bind_ok.mp hRun
      have hNone₄ := alloc_none hNone₃ hAlloc
      obtain ⟨uri, hp₅, hUri, hRun⟩ := Op.bind_ok.mp hRun
      obtain ⟨hNone₅, -, hUriRead⟩ := heapStrDup_none hNone₄ hUri
      obtain ⟨_, _, hGet, hRun⟩ := Op.bind_ok.mp hRun
      obtain ⟨rfl, rfl⟩ := Op.get_ok.mp hGet
      obtain ⟨copies, hp₆, hCopies, hRun⟩ := Op.bind_ok.mp hRun
      obtain ⟨hNone₆, hLits, hReads⟩ := appendAll_none hNone₅ hCopies
      obtain ⟨last, hp₇, hLast, hRun⟩ := Op.bind_ok.mp hRun
      obtain ⟨hNone₇, hLastLit, hLastRead⟩ := heapStrDup_none hNone₆ hLast
      obtain ⟨target, hp₈, hTarget, hRun⟩ := Op.bind_ok.mp hRun
      obtain ⟨hNone₈, -⟩ := parseTargetUri_none hNone₇ hTarget
      obtain ⟨hPair, rfl⟩ := Op.pure_ok.mp hRun
      obtain ⟨rfl, hTwo⟩ := Prod.mk.inj hPair
      obtain ⟨-, rfl⟩ := Prod.mk.inj hTwo
      refine ⟨hNone₈, fun s hs => ?_, ?_, ?_⟩
      · rcases List.mem_append.mp hs with hOther | hIs
        · exact hLits s hOther
        · exact List.mem_singleton.mp hIs ▸ hLastLit
      · rw [mem_none hNone₅, cutHeaders_read, hUriRead, hSpec]
      · rw [List.map_append, hUris hReads, hOthers, List.map_singleton, hLastRead]

end

/-! ## The parameters of a dialog's requests -/

/-- The Record-Route headers of a message parse, to the URIs of a route set. -/
def RecordRoutes (msg : Msg) (uris : List Bytes) : Prop :=
  List.Forall₂ (fun (h : MsgHdr) uri =>
    ∃ n, h.WireNameaddr n ∧ Mem.read (fun _ => .zero) n.addr_spec = uri)
    (msg.hdrs.filter (·.hf_type == .RECORDROUTE)) uris

/-- The Request-URI of a dialog's requests, and what their Route headers are parsed to, for a remote
target and a route set. -/
def DialogRequest.FollowsRfc (m : Mem) (d : DialogRequest) (remote first : Bytes)
    (rest : List Bytes) : Prop :=
  RfcTarget remote first rest (m.read d.request_uri) (d.routes.map fun r => uriOf (m.read r))

theorem addr_spec_lit {h : MsgHdr} {n : NameAddr} (hWire : h.WireNameaddr n) :
    ∃ b, n.addr_spec.src = .lit b := by
  obtain ⟨b, hSrc⟩ := hWire.wire
  exact (NameAddr.parseParts_within hWire.parts).2.1.lit hSrc

theorem filterMap_wire {hdrs : List MsgHdr} {uris : List Bytes}
    (h : List.Forall₂ (fun (h : MsgHdr) uri =>
      ∃ n, h.WireNameaddr n ∧ Mem.read (fun _ => .zero) n.addr_spec = uri) hdrs uris) (hp : Heap)
    (m : Mem) :
    let specs := (hdrs.filterMap Msg.nameaddrOf).map (·.addr_spec)
    (∀ s ∈ specs, hp.Settled s) ∧ specs.map (hp.mem m).read = uris := by
  induction h with
  | nil => exact ⟨List.forall_mem_nil _, rfl⟩
  | @cons h _ _ _ hFirst _ ih =>
    obtain ⟨n, hWire, rfl⟩ := hFirst
    obtain ⟨b, hLit⟩ := addr_spec_lit hWire
    have hOf : Msg.nameaddrOf h = some n := by
      rw [Msg.nameaddrOf, hWire.parsed]
    simp only [List.filterMap_cons, hOf, List.map_cons]
    exact ⟨List.forall_mem_cons.mpr ⟨hp.settled_lit hLit, ih.1⟩,
      congrArg₂ _ (Mem.read_of_lit hLit _ _) ih.2⟩

theorem find?_matched {msg : Msg} {mask : List Hf} {t : Hf} (h : t ∈ mask) :
    (msg.matched mask false).find? (·.hf_type == t) = msg.top t := by
  rw [Msg.matched, if_neg Bool.false_ne_true, List.find?_filter, Msg.top]
  congr 1
  funext x
  rw [Bool.eq_iff_iff, decide_eq_true_iff, decide_eq_true_iff, beq_iff_eq]
  exact ⟨fun hBoth => hBoth.2, fun hIs => ⟨hIs ▸ h, hIs⟩⟩

theorem filter_matched {msg : Msg} {mask : List Hf} {t : Hf} (h : t ∈ mask) :
    (msg.matched mask false).filter (·.hf_type == t) = msg.hdrs.filter (·.hf_type == t) := by
  rw [Msg.matched, if_neg Bool.false_ne_true, List.filter_filter]
  congr 1
  funext x
  rw [Bool.eq_iff_iff, Bool.and_eq_true, decide_eq_true_iff, beq_iff_eq]
  exact ⟨fun hBoth => hBoth.1, fun hIs => ⟨hIs, hIs ▸ h⟩⟩

/-- What follows the resolving of the target, on either side. -/
theorem copies_ok {m : Mem} {call_id contact_uri from_uri to_uri local_tag remote_tag uri : Str}
    {addr : Addr} {hp hp' : Heap} {d : DialogRequest}
    {f : Str → Str → Str → Str → Str → Str → Str → Addr → DialogRequest}
    (hRun : (do
      let call_id ← heapStrDup m call_id
      let contact_uri ← heapStrDup m contact_uri
      let from_uri ← heapStrDup m from_uri
      let to_uri ← heapStrDup m to_uri
      let local_tag ← heapStrDup m local_tag
      let remote_tag ← heapStrDup m remote_tag
      let request_uri ← heapStrDup m uri
      let local_ ← dialogCopyAddr m addr
      return f call_id contact_uri from_uri to_uri local_tag remote_tag request_uri local_ :
        ParamsM DialogRequest).run hp = some (.ok d, hp')) (hOwn : hp.Settled uri) :
    hp.Grows hp' ∧ ∃ s₁ s₂ s₃ s₄ s₅ s₆ request_uri local_,
      d = f s₁ s₂ s₃ s₄ s₅ s₆ request_uri local_ ∧ hp'.Laid request_uri ∧
        (hp'.mem m).read request_uri = (hp.mem m).read uri := by
  obtain ⟨s₁, hp₁, hDone₁, hRun⟩ := Op.bind_ok.mp hRun
  obtain ⟨s₂, hp₂, hDone₂, hRun⟩ := Op.bind_ok.mp hRun
  obtain ⟨s₃, hp₃, hDone₃, hRun⟩ := Op.bind_ok.mp hRun
  obtain ⟨s₄, hp₄, hDone₄, hRun⟩ := Op.bind_ok.mp hRun
  obtain ⟨s₅, hp₅, hDone₅, hRun⟩ := Op.bind_ok.mp hRun
  obtain ⟨s₆, hp₆, hDone₆, hRun⟩ := Op.bind_ok.mp hRun
  obtain ⟨request_uri, hp₇, hUri, hRun⟩ := Op.bind_ok.mp hRun
  obtain ⟨local_, hp₈, hLocal, hRun⟩ := Op.bind_ok.mp hRun
  obtain ⟨rfl, rfl⟩ := Op.pure_ok.mp hRun
  have hGrows : hp.Grows hp₆ :=
    IsTrans.trans _ _ _ (heapStrDup_ok hDone₁).1 <| IsTrans.trans _ _ _ (heapStrDup_ok hDone₂).1 <|
      IsTrans.trans _ _ _ (heapStrDup_ok hDone₃).1 <| IsTrans.trans _ _ _ (heapStrDup_ok hDone₄).1 <|
        IsTrans.trans _ _ _ (heapStrDup_ok hDone₅).1 (heapStrDup_ok hDone₆).1
  obtain ⟨hGrowsUri, hUriOwn, hRead⟩ := heapStrDup_ok hUri
  have hGrowsLocal := dialogCopyAddr_grows hLocal
  refine ⟨IsTrans.trans _ _ _ hGrows (IsTrans.trans _ _ _ hGrowsUri hGrowsLocal),
    s₁, s₂, s₃, s₄, s₅, s₆, request_uri, local_, rfl, hGrowsLocal.laid hUriOwn, ?_⟩
  rw [hGrowsLocal.read hUriOwn.settled, hRead, hGrows.read hOwn]

theorem initUacDialogRequestParams_ok {tm : Tm} {i : Nat} {msg : Msg} {method_type : UInt8}
    {hp hp' : Heap} {d : DialogRequest} {contact : MsgHdr} {c : NameAddr} {uris rest : List Bytes}
    {first : Bytes} (hContact : msg.top .CONTACT = some contact) (hWire : contact.WireNameaddr c)
    (hRoutes : RecordRoutes msg uris) (hFirst : uris.reverse = first :: rest)
    (hRun : (initUacDialogRequestParams tm i msg method_type).run hp = some (.ok d, hp')) :
    hp.Grows hp' ∧ hp'.Laid d.request_uri ∧ (∀ s ∈ d.routes, hp'.Laid s) ∧
      Resolved (hp'.mem tm.mem).read (Mem.read (fun _ => .zero) c.addr_spec) first rest d.request_uri
        d.routes := by
  have hPresent : msg.present .RECORDROUTE = true := by
    rw [Msg.present, List.any_eq_true]
    cases hHdrs : msg.hdrs.filter (·.hf_type == .RECORDROUTE) with
    | nil =>
      rw [RecordRoutes, hHdrs] at hRoutes
      cases hRoutes
      cases hFirst
    | cons h hs =>
      have hMem : h ∈ msg.hdrs.filter (·.hf_type == .RECORDROUTE) := by
        rw [hHdrs]
        exact List.mem_cons_self
      exact ⟨h, List.mem_filter.mp hMem⟩
  rw [initUacDialogRequestParams, if_pos hPresent] at hRun
  obtain ⟨_, _, hDone, hRun⟩ := Op.bind_ok.mp hRun
  obtain ⟨-, rfl⟩ := Op.assert_ok.mp hDone
  obtain ⟨_, _, hDone, hRun⟩ := Op.bind_ok.mp hRun
  obtain ⟨-, rfl⟩ := Op.require_ok.mp hDone
  obtain ⟨_, _, hDone, hRun⟩ := Op.bind_ok.mp hRun
  obtain ⟨-, rfl⟩ := Op.assert_ok.mp hDone
  obtain ⟨_, _, hDone, hRun⟩ := Op.bind_ok.mp hRun
  obtain ⟨-, rfl⟩ := Op.require_ok.mp hDone
  obtain ⟨hdrs, _, hHdrs, hRun⟩ := Op.bind_ok.mp hRun
  obtain ⟨hGot, rfl⟩ := Op.orElse_ok.mp hHdrs
  have hIs : hdrs = msg.matched ([Hf.TO, .CONTACT] ++ [.RECORDROUTE]) false := by
    rw [Msg.parseHdrsGet] at hGot
    split at hGot
    · exact (Option.some.inj hGot).symm
    · cases hGot
  obtain ⟨top, _, hDone, hRun⟩ := Op.bind_ok.mp hRun
  obtain ⟨-, rfl⟩ := Op.orElse_ok.mp hDone
  obtain ⟨contactp, _, hDone, hRun⟩ := Op.bind_ok.mp hRun
  obtain ⟨hFound, rfl⟩ := Op.orElse_ok.mp hDone
  rw [hIs, find?_matched (by decide), hContact, Option.bind_some, Msg.nameaddrOf, hWire.parsed] at hFound
  obtain rfl := Option.some.inj hFound
  obtain ⟨_, _, hDone, hRun⟩ := Op.bind_ok.mp hRun
  obtain ⟨rfl, rfl⟩ := Op.get_ok.mp hDone
  obtain ⟨tag, _, hDone, hRun⟩ := Op.bind_ok.mp hRun
  obtain ⟨-, rfl⟩ := Op.orElse_ok.mp hDone
  obtain ⟨_, _, hDone, hRun⟩ := Op.bind_ok.mp hRun
  obtain ⟨-, rfl⟩ := Op.require_ok.mp hDone
  obtain ⟨⟨uri, target, routes⟩, hp₁, hTarget, hRun⟩ := Op.bind_ok.mp hRun
  rw [hIs, filter_matched (by decide)] at hTarget
  obtain ⟨hSettled, hTexts⟩ := filterMap_wire hRoutes hp tm.mem
  have hReversed := congrArg List.reverse hTexts
  rw [← List.map_reverse, hFirst] at hReversed
  obtain ⟨hGrows₁, hUriOwn, hRoutesOwn, hResolved⟩ :=
    dialogResolveTarget_ok hSettled hReversed hTarget
  obtain ⟨b, hLit⟩ := addr_spec_lit hWire
  rw [Mem.read_of_lit hLit (hp.mem tm.mem) fun _ => .zero] at hResolved
  obtain ⟨hGrows, s₁, s₂, s₃, s₄, s₅, s₆, request_uri, local_, rfl, hLaid, hRead⟩ :=
    copies_ok hRun hUriOwn.settled
  have hLater := hResolved.grows hGrows hUriOwn hRoutesOwn
  rw [Resolved, hGrows.read hUriOwn.settled] at hLater
  refine ⟨IsTrans.trans _ _ _ hGrows₁ hGrows, hLaid, fun s hs => hGrows.laid (hRoutesOwn s hs), ?_⟩
  rw [Resolved, hRead]
  exact hLater

/-- The remote target of a dialog made by an incoming INVITE. -/
def UasCache.remoteTarget (u : UasCache) : Str :=
  if u.contact_uri.l ≠ 0 then u.contact_uri else u.request_uri

theorem initUasDialogRequestParams_ok {tm : Tm} {i : Nat} {method_type : UInt8} {hp hp' : Heap}
    {d : DialogRequest} {rest : List Bytes} {first : Bytes} (hNone : hp.slot = none)
    (hFirst : (tm.tx i).cache.uas.record_routes.map (fun s => uriOf (tm.mem.read s)) =
      (first :: rest).map some)
    (hRun : (initUasDialogRequestParams tm i method_type).run hp = some (.ok d, hp')) :
    hp'.slot = none ∧ (∃ b, d.request_uri.src = .lit b) ∧ (∀ s ∈ d.routes, ∃ b, s.src = .lit b) ∧
      let remote := tm.mem.read (tm.tx i).cache.uas.remoteTarget
      if bytes "lr" ∈ uriParamNames first then
        tm.mem.read d.request_uri = remote ∧
          d.routes.map (fun s => uriOf (tm.mem.read s)) = (first :: rest).map some
      else tm.mem.read d.request_uri = uriNoHdrs first ∧
        d.routes.map (fun s => uriOf (tm.mem.read s)) = rest.map some ++ [uriOf remote] := by
  rw [initUasDialogRequestParams] at hRun
  obtain ⟨_, _, hDone, hRun⟩ := Op.bind_ok.mp hRun
  obtain ⟨-, rfl⟩ := Op.assert_ok.mp hDone
  obtain ⟨_, _, hDone, hRun⟩ := Op.bind_ok.mp hRun
  obtain ⟨-, rfl⟩ := Op.require_ok.mp hDone
  obtain ⟨_, _, hDone, hRun⟩ := Op.bind_ok.mp hRun
  obtain ⟨-, rfl⟩ := Op.assert_ok.mp hDone
  obtain ⟨_, _, hDone, hRun⟩ := Op.bind_ok.mp hRun
  obtain ⟨-, rfl⟩ := Op.require_ok.mp hDone
  obtain ⟨_, _, hDone, hRun⟩ := Op.bind_ok.mp hRun
  obtain ⟨-, rfl⟩ := Op.require_ok.mp hDone
  obtain ⟨⟨uri, target, routes⟩, hp₁, hTarget, hRun⟩ := Op.bind_ok.mp hRun
  obtain ⟨hNone₁, hLits, hResolved⟩ := uasResolveTarget_none hNone hFirst hTarget
  obtain ⟨hGrows, s₁, s₂, s₃, s₄, s₅, s₆, request_uri, local_, rfl, hLaid, hRead⟩ :=
    copies_ok hRun (settled_none hNone₁ _)
  have hNone' := hGrows.slot.trans hNone₁
  rw [mem_none hNone₁, mem_none hNone'] at hRead
  simp only [hRead]
  exact ⟨hNone', lit_none hNone' hLaid, hLits, hResolved⟩

/-- The parameters of a client dialog follow RFC 3261 12.2.1.1 just where the first route is strict and no
route needs brackets, those of a server dialog just where the first route is loose, or strict and the
remote target needs no brackets. -/
theorem followsRfc_iff (tm : Tm) (i : Nat) (method_type : UInt8) (hp hp' : Heap)
    (d : DialogRequest) (first : Bytes) (rest : List Bytes) :
    (∀ (msg : Msg) (contact : MsgHdr) (c : NameAddr) (uris : List Bytes),
      msg.top .CONTACT = some contact → contact.WireNameaddr c → RecordRoutes msg uris →
      uris.reverse = first :: rest →
      (initUacDialogRequestParams tm i msg method_type).run hp = some (.ok d, hp') →
      let remote := Mem.read (fun _ => .zero) c.addr_spec
      (d.FollowsRfc (hp'.mem tm.mem) remote first rest ↔
        uriHas "lr" first = false ∧ uriHas "method" first = false ∧
          ∀ u ∈ rest ++ [remote], Bare u)) ∧
    (hp.slot = none →
      (tm.tx i).cache.uas.record_routes.map (fun s => uriOf (tm.mem.read s)) =
        (first :: rest).map some →
      (initUasDialogRequestParams tm i method_type).run hp = some (.ok d, hp') →
      let remote := tm.mem.read (tm.tx i).cache.uas.remoteTarget
      (d.FollowsRfc (hp'.mem tm.mem) remote first rest ↔
        bytes "lr" ∈ uriParamNames first ∨
          uriHas "lr" first = false ∧ uriHas "method" first = false ∧ Bare remote)) := by
  constructor
  · intro msg contact c uris hContact hWire hRoutes hFirst hRun remote
    obtain ⟨-, -, -, hResolved⟩ := initUacDialogRequestParams_ok hContact hWire hRoutes hFirst hRun
    rw [← rfcTarget_bare_iff, DialogRequest.FollowsRfc]
    have hMap : d.routes.map (fun r => uriOf ((hp'.mem tm.mem).read r)) =
        (d.routes.map (hp'.mem tm.mem).read).map uriOf := by
      rw [List.map_map]
      rfl
    rw [Resolved] at hResolved
    rw [hMap]
    split at hResolved
    · rename_i hLr
      rw [if_pos hLr, hResolved.1, hResolved.2]
    · rename_i hLr
      rw [if_neg hLr, hResolved.1, hResolved.2]
  · intro hNone hFirst hRun remote
    obtain ⟨hNone', -, -, hResolved⟩ := initUasDialogRequestParams_ok hNone hFirst hRun
    rw [← rfcTarget_raw_iff, DialogRequest.FollowsRfc, mem_none hNone']
    simp only at hResolved
    split at hResolved
    · rename_i hLr
      rw [if_pos hLr, hResolved.1, hResolved.2]
    · rename_i hLr
      rw [if_neg hLr, hResolved.1, hResolved.2]

end Microsippy
