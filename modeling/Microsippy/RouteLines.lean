import Microsippy.Checkpoints
import Microsippy.ReqRound
import Microsippy.RouteSet

/-! # Routes on the wire

What the requests of a dialog are written with: the Request-URI and the Route headers that
`usipy_sip_tm_build_request` prints for the BYE of either side and for the ACK of a 2xx.
-/

namespace Microsippy

set_option autoImplicit false

/-! ## The parts of a URI on a heap -/

/-- All the strings a URI is made of are so. -/
structure Uri.All (P : Str → Prop) (up : Uri) : Prop where
  proto : P up.proto
  user : P up.user
  password : P up.password
  host : P up.host
  parameters : ∀ p ∈ up.parameters, P p.token ∧ P p.value
  headers : ∀ p ∈ up.headers, P p.token ∧ P p.value

namespace Heap

variable {hp : Heap} {m : Mem} {x y z s : Str}

theorem Laid.sub {k l : Nat} (h : hp.Laid x) (hWithin : k + l ≤ x.l) : hp.Laid (x.sub k l) := by
  rw [Str.sub]
  split
  · exact laid_null hp
  · rcases h with hLit | ⟨i, hSrc, hSlot, hEnd⟩
    · exact Or.inl hLit
    · refine Or.inr ⟨i, hSrc, hSlot, ?_⟩
      simp only
      omega

theorem Laid.split {dlm : UInt8} (h : hp.Laid x) (hSplit : x.split m dlm = some (y, z)) :
    hp.Laid y ∧ hp.Laid z := by
  simp only [Str.split, Option.map_eq_some_iff, Prod.mk.injEq] at hSplit
  obtain ⟨r, hAt, rfl, rfl⟩ := hSplit
  have hLt := chr_lt_l hAt
  exact ⟨h.sub (by omega), h.sub (by omega)⟩

theorem Laid.elems {dlm : UInt8} {fuel : Nat} (h : hp.Laid x)
    (hIn : s ∈ elems (fun s => s.splitElemNlws m dlm) fuel x) : hp.Laid s := by
  induction fuel generalizing x with
  | zero => cases hIn
  | succ fuel ih =>
    rw [Microsippy.elems] at hIn
    split at hIn
    · cases hIn
    · split at hIn
      · rename_i this rest hSplit
        obtain ⟨hThis, hRest⟩ := h.split hSplit
        rcases List.mem_cons.mp hIn with rfl | hLater
        · exact hThis
        · exact ih hRest hLater
      · obtain rfl := List.mem_singleton.mp hIn
        exact h

theorem Laid.pairs {dlm : UInt8} (h : hp.Laid x) {p : TvPair} (hIn : p ∈ Uri.pairs m dlm x) :
    hp.Laid p.token ∧ hp.Laid p.value := by
  obtain ⟨s, hElem, rfl⟩ := List.mem_map.mp hIn
  have hOwn := h.elems hElem
  rw [tvPair]
  split
  · rename_i hSplit
    exact hOwn.split hSplit
  · exact ⟨hOwn, laid_null hp⟩

theorem Laid.splitUser (h : hp.Laid x) : hp.Laid (Uri.splitUser m x).1 ∧
    hp.Laid (Uri.splitUser m x).2.1 ∧ hp.Laid (Uri.splitUser m x).2.2 := by
  rw [Uri.splitUser]
  split
  · rename_i userpass iup hAt
    obtain ⟨hBefore, hAfter⟩ := h.split hAt
    split
    · rename_i hColon
      obtain ⟨hUser, hPassword⟩ := hBefore.split hColon
      exact ⟨hUser, hPassword, hAfter⟩
    · exact ⟨hBefore, laid_null hp, hAfter⟩
  · exact ⟨laid_null hp, laid_null hp, h⟩

theorem Laid.splitSpaces (h : hp.Laid x) : hp.Laid (Uri.splitSpaces m x).1 ∧
    hp.Laid (Uri.splitSpaces m x).2.1 ∧ hp.Laid (Uri.splitSpaces m x).2.2 := by
  rw [Uri.splitSpaces]
  split
  · split
    · exact ⟨h, laid_null hp, laid_null hp⟩
    · rename_i hMark
      exact ⟨(h.split hMark).1, laid_null hp, (h.split hMark).2⟩
  · rename_i hSemi
    obtain ⟨hPlace, hRest⟩ := h.split hSemi
    split
    · exact ⟨hPlace, hRest, laid_null hp⟩
    · rename_i hMark
      exact ⟨hPlace, (hRest.split hMark).1, (hRest.split hMark).2⟩

theorem Laid.parseParts {up : Uri} (h : hp.Laid x) (hParts : Uri.parseParts m x = some up) :
    up.All hp.Laid := by
  simp only [Uri.parseParts, Option.bind_eq_bind, Option.bind_eq_some_iff] at hParts
  obtain ⟨⟨proto, iup⟩, hProto, ⟨host, port⟩, hPlace, hUp⟩ := hParts
  obtain ⟨hFirst, hIup⟩ := h.split hProto
  obtain ⟨hUser, hPassword, hAfter⟩ := hIup.splitUser (m := m)
  obtain ⟨hNum, hParams, hHdrs⟩ := hAfter.splitSpaces (m := m)
  obtain rfl := Option.some.inj hUp
  refine ⟨hFirst, hUser, hPassword, ?_, fun p => hParams.pairs, fun p => hHdrs.pairs⟩
  split at hPlace
  · cases hPlace
  · rw [Uri.splitPort] at hPlace
    split at hPlace
    · rename_i hColon
      obtain ⟨_, -, hIs⟩ := Option.map_eq_some_iff.mp hPlace
      obtain ⟨rfl, -⟩ := Prod.mk.inj hIs
      exact (hNum.split hColon).1
    · obtain ⟨rfl, -⟩ := Prod.mk.inj (Option.some.inj hPlace)
      exact hNum

end Heap

namespace Uri.All

variable {P Q : Str → Prop} {up : Uri} {s : Str}

theorem mono (h : up.All P) (hImp : ∀ s, P s → Q s) : up.All Q :=
  ⟨hImp _ h.proto, hImp _ h.user, hImp _ h.password, hImp _ h.host,
    fun p hp => (h.parameters p hp).imp (hImp _) (hImp _), fun p hp => (h.headers p hp).imp (hImp _) (hImp _)⟩

/-- A URI is the same wherever its parts are read the same. -/
theorem texts {m m' : Mem} (h : up.All P) (hSame : ∀ s, P s → m.read s = m'.read s) :
    up.texts m = up.texts m' := by
  have hPairs : ∀ ps : List TvPair, (∀ p ∈ ps, P p.token ∧ P p.value) →
      Params.texts m ps = Params.texts m' ps := by
    intro ps hAll
    refine List.map_congr_left fun p hp => ?_
    rw [readPair, readPair, hSame _ (hAll p hp).1, hSame _ (hAll p hp).2]
  rw [Uri.texts, Uri.texts, hSame _ h.proto, hSame _ h.user, hSame _ h.password, hSame _ h.host,
    hPairs _ h.parameters, hPairs _ h.headers]

theorem pair {sep : String} {p : TvPair} (hLit : ∀ b, P (Str.lit b)) (h : P p.token ∧ P p.value) {c : Chunk}
    (hc : c ∈ Uri.buildPair sep p) (hs : s ∈ c.strs) : P s := by
  rw [Uri.buildPair] at hc
  split at hc
  · simp only [List.cons_append, List.nil_append, List.mem_cons, List.not_mem_nil, or_false] at hc
    rcases hc with rfl | rfl | rfl | rfl <;> obtain rfl := List.mem_singleton.mp hs
    · exact hLit _
    · exact h.1
    · exact hLit _
    · exact h.2
  · simp only [List.append_nil, List.mem_cons, List.not_mem_nil, or_false] at hc
    rcases hc with rfl | rfl <;> obtain rfl := List.mem_singleton.mp hs
    · exact hLit _
    · exact h.1

/-- All that a URI is written from. -/
theorem strs (hLit : ∀ b, P (Str.lit b)) (h : up.All P) : ∀ c ∈ up.build, ∀ s ∈ c.strs, P s := by
  have hOne : ∀ {s : Str}, P s → ∀ c ∈ [Chunk.put 0 s], ∀ t ∈ c.strs, P t := by
    intro s hs c hc t ht
    obtain rfl := List.mem_singleton.mp hc
    exact List.mem_singleton.mp ht ▸ hs
  have hText : ∀ t : String, ∀ c ∈ [Chunk.text t], ∀ s ∈ c.strs, P s := fun t => hOne (hLit _)
  have hPairs : ∀ (sep : String) (ps : List TvPair), (∀ p ∈ ps, P p.token ∧ P p.value) →
      ∀ c ∈ (ps.map (Uri.buildPair sep)).flatten, ∀ s ∈ c.strs, P s := by
    intro sep ps hAll c hc s hs
    obtain ⟨cs, hcs, hMem⟩ := List.mem_flatten.mp hc
    obtain ⟨p, hp, rfl⟩ := List.mem_map.mp hcs
    exact pair hLit (hAll p hp) hMem hs
  rw [Uri.build]
  refine List.forall_mem_append.mpr ⟨List.forall_mem_append.mpr ⟨List.forall_mem_append.mpr
    ⟨List.forall_mem_append.mpr ⟨List.forall_mem_append.mpr ⟨?_, ?_⟩, hOne h.host⟩, ?_⟩, ?_⟩, ?_⟩
  · exact List.forall_mem_cons.mpr ⟨hOne h.proto _ (List.mem_singleton_self _), hText ":"⟩
  · split
    · refine List.forall_mem_append.mpr ⟨List.forall_mem_append.mpr ⟨hOne h.user, ?_⟩, hText "@"⟩
      split
      · exact List.forall_mem_cons.mpr ⟨hText ":" _ (List.mem_singleton_self _), hOne h.password⟩
      · exact List.forall_mem_nil _
    · exact List.forall_mem_nil _
  · split
    · intro c hc s hs
      obtain rfl := List.mem_singleton.mp hc
      exact List.mem_singleton.mp hs ▸ hLit _
    · exact List.forall_mem_nil _
  · exact hPairs ";" up.parameters h.parameters
  · cases hHdrs : up.headers with
    | nil => exact List.forall_mem_nil _
    | cons p ps =>
      have hAll := h.headers
      rw [hHdrs] at hAll
      refine List.forall_mem_append.mpr ⟨fun c hc s hs => ?_, ?_⟩
      · exact pair hLit (hAll p List.mem_cons_self) hc hs
      · exact hPairs "&" ps fun q hq => hAll q (List.mem_cons_of_mem _ hq)

end Uri.All

/-! ## The text of a request -/

/-- The first pieces and some later ones, in what all of them write. -/
theorem Chunk.run_parts {rd : Arena → Str → Bytes} {base cap : Nat} {one two three rest : List Chunk}
    {b b' : Arena} {n : Nat} {f : Str → Bytes}
    (hOne : ∀ c ∈ one, ∀ s ∈ c.strs, ∀ b₁ : Arena, (∀ k < base, b₁ k = b k) → rd b₁ s = f s)
    (hThree : ∀ c ∈ three, ∀ s ∈ c.strs, ∀ b₁ : Arena, (∀ k < base, b₁ k = b k) → rd b₁ s = f s)
    (hLength : ∀ s, (f s).length = s.l)
    (hRun : run rd base cap (one ++ (two ++ (three ++ rest))) b 0 = (some n, b')) :
    ∃ y z, b'.readAt base n = outAll f one ++ (y ++ (outAll f three ++ z)) := by
  obtain ⟨k₁, b₁, hFirst, hRun⟩ := run_append_some hRun
  obtain ⟨k₂, b₂, hSecond, hRun⟩ := run_append_some hRun
  obtain ⟨k₃, b₃, hThird, hRest⟩ := run_append_some hRun
  have hBelow : ∀ {cs : List Chunk} {a a' : Arena} {off k : Nat}, run rd base cap cs a off = (some k, a') →
      ∀ j < base + off, a' j = a j := by
    intro cs a a' off k hWritten j hj
    have hSame := run_below rd base cap cs a off hj
    rwa [hWritten] at hSame
  have hUnder : ∀ j < base, b₂ j = b j := fun j hj =>
    (hBelow hSecond j (by omega)).trans (hBelow hFirst j (by omega))
  obtain ⟨hk₁, hReadOne⟩ := run_some hOne hLength hFirst
  obtain ⟨rfl, hReadThree⟩ := run_some (f := f) (fun c hc s hs a ha => hThree c hc s hs a fun j hj =>
    (ha j hj).trans (hUnder j hj)) hLength hThird
  rw [Nat.zero_add] at hk₁
  rw [Nat.add_zero] at hReadOne
  subst hk₁
  obtain ⟨gap, rfl⟩ := Nat.exists_eq_add_of_le (run_le hSecond)
  obtain ⟨left, rfl⟩ := Nat.exists_eq_add_of_le (run_le hRest)
  have hKeptOne : b'.readAt base (outAll f one).length = outAll f one := by
    refine (Arena.readAt_congr fun j hj => ?_).trans hReadOne
    rw [hBelow hRest _ (by omega), hBelow hThird _ (by omega), hBelow hSecond _ (by omega)]
  have hKeptThree : b'.readAt (base + ((outAll f one).length + gap)) (outAll f three).length =
      outAll f three :=
    (Arena.readAt_congr fun j hj => hBelow hRest _ (by omega)).trans hReadThree
  refine ⟨b'.readAt (base + (outAll f one).length) gap,
    b'.readAt (base + ((outAll f one).length + gap + (outAll f three).length)) left, ?_⟩
  rw [Arena.readAt_add, Arena.readAt_add, Arena.readAt_add, hKeptOne, hKeptThree]
  simp only [List.append_assoc]

/-- The same of a text built on a heap. -/
theorem Heap.build_parts {m : Mem} {one two three rest : List Chunk} {s : Str} {hp hp' : Heap}
    (hOne : ∀ c ∈ one, ∀ s ∈ c.strs, hp.Settled s) (hThree : ∀ c ∈ three, ∀ s ∈ c.strs, hp.Settled s)
    (hRun : (build m (one ++ (two ++ (three ++ rest)))).run hp = some (.ok s, hp')) :
    ∃ y z, (hp'.mem m).read s =
      Chunk.outAll (hp.mem m).read one ++ (y ++ (Chunk.outAll (hp.mem m).read three ++ z)) := by
  simp only [build, Op.bind_ok, Op.get_ok, Op.require_ok, Op.modify_ok, Op.orElse_ok,
    Op.pure_ok] at hRun
  obtain ⟨_, _, ⟨rfl, rfl⟩, _, _, ⟨-, rfl⟩, _, _, rfl, n, _, ⟨hText, rfl⟩, off, _, hReserve, _, _,
    ⟨rfl, rfl⟩, rfl, rfl⟩ := hRun
  obtain ⟨rfl, -, rfl⟩ := reserve_ok.mp hReserve
  have hPair : Chunk.run (fun b s => (({ hp with first := b } : Heap).mem m).read s)
      (alignedSize hp.alen) (hp.tsize - alignedSize hp.alen) (one ++ (two ++ (three ++ rest))) hp.first 0 =
        (some n, (buildRun m (one ++ (two ++ (three ++ rest))) hp).2) := Prod.ext hText rfl
  have hStable : ∀ {cs : List Chunk}, (∀ c ∈ cs, ∀ s ∈ c.strs, hp.Settled s) →
      ∀ c ∈ cs, ∀ s ∈ c.strs, ∀ b₁ : Arena, (∀ k < alignedSize hp.alen, b₁ k = hp.first k) →
        (({ hp with first := b₁ } : Heap).mem m).read s = (hp.mem m).read s := by
    intro cs hStays c hc s hs b₁ hSame
    have hLe := le_alignedSize hp.alen
    exact (Grows.of_first fun k hk => hSame k (by omega)).read (hStays c hc s hs) m
  rw [read_view]
  exact Chunk.run_parts (hStable hOne) (hStable hThree) (Mem.length_read _) hPair

/-- The Route headers of a request. -/
def routeLines (routes : List Bytes) : Bytes := routes.flatMap fun r => hdrText (.ROUTE, r) ++ [13, 10]

/-- A request's text begins with a Request-URI, as the builder writes it, and has after its first headers
the Route headers of a route set. -/
def RequestText (method : Method) (uri : Bytes) (routes : List Bytes) (text : Bytes) : Prop :=
  ∃ t first rest, Uri.parseText uri = some t ∧
    text = method.name ++ ch ' ' :: (Uri.textOut t ++ ch ' ' :: bytes "SIP/2.0") ++ [13, 10] ++
      (first ++ (routeLines routes ++ rest))

/-- The Request-URI that a slot has for its request. -/
def Txi.HasUri (held : Heap → Str → Prop) (uri : Bytes) (tp : Txi) : Prop :=
  ∃ up, tp.cache.uac.request_uri = some up ∧ up.All (held tp.scratch) ∧
    ∀ m, Uri.parseText uri = some (up.texts (tp.scratch.mem m))

/-- The route set that a slot has for its request. -/
def Txi.HasRoutes (held : Heap → Str → Prop) (routes : List Bytes) (tp : Txi) : Prop :=
  (∀ r ∈ tp.cache.uac.routes, held tp.scratch r) ∧
    ∀ m, tp.cache.uac.routes.map (tp.scratch.mem m).read = routes

/-- What a slot's request goes by is below the checkpoint it is built from. -/
structure Txi.GoesBy (uri : Bytes) (routes : List Bytes) (tp : Txi) : Prop where
  top : tp.scratch.base ≤ tp.scratch.alen
  uri : tp.HasUri Heap.Holds uri
  routes : tp.HasRoutes Heap.Holds routes

theorem Txi.HasUri.same {held held' : Heap → Str → Prop} {uri : Bytes} {tp tp' : Txi}
    (h : tp.HasUri held uri) (hUri : tp'.cache.uac.request_uri = tp.cache.uac.request_uri)
    (hHeld : ∀ s, held tp.scratch s → held' tp'.scratch s)
    (hRead : ∀ s, held tp.scratch s → ∀ m, (tp'.scratch.mem m).read s = (tp.scratch.mem m).read s) :
    tp'.HasUri held' uri := by
  obtain ⟨up, hIs, hAll, hText⟩ := h
  refine ⟨up, hUri.trans hIs, hAll.mono hHeld, fun m => ?_⟩
  rw [hText m, hAll.texts fun s hs => (hRead s hs m).symm]

theorem Txi.HasRoutes.same {held held' : Heap → Str → Prop} {routes : List Bytes} {tp tp' : Txi}
    (h : tp.HasRoutes held routes) (hRoutes : tp'.cache.uac.routes = tp.cache.uac.routes)
    (hHeld : ∀ s, held tp.scratch s → held' tp'.scratch s)
    (hRead : ∀ s, held tp.scratch s → ∀ m, (tp'.scratch.mem m).read s = (tp.scratch.mem m).read s) :
    tp'.HasRoutes held' routes := by
  obtain ⟨hAll, hText⟩ := h
  refine ⟨fun r hr => hHeld r (hAll r (hRoutes ▸ hr)), fun m => ?_⟩
  rw [hRoutes, ← hText m]
  exact List.map_congr_left fun r hr => hRead r (hAll r hr) m

theorem Txi.HasUri.of_scratch {held : Heap → Str → Prop} {uri : Bytes} {tp : Txi} {up : Uri} {hp : Heap}
    (hScratch : tp.scratch = hp) (hIs : tp.cache.uac.request_uri = some up) (hAll : up.All (held hp))
    (hText : ∀ m, Uri.parseText uri = some (up.texts (hp.mem m))) : tp.HasUri held uri := by
  subst hScratch
  exact ⟨up, hIs, hAll, hText⟩

theorem Txi.HasRoutes.of_scratch {held : Heap → Str → Prop} {routes : List Bytes} {tp : Txi} {ss : List Str}
    {hp : Heap} (hScratch : tp.scratch = hp) (hIs : tp.cache.uac.routes = ss) (hAll : ∀ s ∈ ss, held hp s)
    (hText : ∀ m, ss.map (hp.mem m).read = routes) : tp.HasRoutes held routes := by
  subst hScratch hIs
  exact ⟨hAll, hText⟩

/-- What a request goes by stays while nothing changes below the checkpoint. -/
theorem Txi.GoesBy.kept {uri : Bytes} {routes : List Bytes} {tp tp' : Txi} (h : tp.GoesBy uri routes)
    (hHeap : tp.scratch.KeptBelow tp'.scratch)
    (hUri : tp'.cache.uac.request_uri = tp.cache.uac.request_uri)
    (hRoutes : tp'.cache.uac.routes = tp.cache.uac.routes) : tp'.GoesBy uri routes :=
  ⟨hHeap.top h.top, h.uri.same hUri (fun _ => hHeap.holds) fun _ hs m => hHeap.read h.top hs m m,
    h.routes.same hRoutes (fun _ => hHeap.holds) fun _ hs m => hHeap.read h.top hs m m⟩

/-! ## What fills a slot -/

/-- More is put on a slot's heap, and what its request goes by stays. -/
structure Txi.Onto (tp tp' : Txi) : Prop where
  grows : tp.scratch.Grows tp'.scratch
  marked : tp.scratch.Marked tp'.scratch
  request_uri : tp'.cache.uac.request_uri = tp.cache.uac.request_uri
  routes : tp'.cache.uac.routes = tp.cache.uac.routes
  cseq : tp'.cache.cseq = tp.cache.cseq

instance : IsPreorder Txi Txi.Onto where
  refl _ := ⟨Std.Refl.refl _, Std.Refl.refl _, rfl, rfl, rfl⟩
  trans _ _ _ h h' := ⟨IsTrans.trans _ _ _ h.grows h'.grows, IsTrans.trans _ _ _ h.marked h'.marked,
    h'.request_uri.trans h.request_uri, h'.routes.trans h.routes, h'.cseq.trans h.cseq⟩

theorem Heap.Marked.keptBelow {hp hp' : Heap} (h : hp.Marked hp')
    (hGrows : hp.Grows hp') : hp.KeptBelow hp' :=
  ⟨hGrows.slot, h.checkpoints, h.le, fun hTop _ hk => hGrows.below _ (Nat.lt_of_lt_of_le hk hTop)⟩

theorem Txi.Onto.goesBy {uri : Bytes} {routes : List Bytes} {tp tp' : Txi} (h : tp.Onto tp')
    (hGoes : tp.GoesBy uri routes) : tp'.GoesBy uri routes :=
  hGoes.kept (h.marked.keptBelow h.grows) h.request_uri h.routes

theorem Txi.Onto.hasUri {uri : Bytes} {tp tp' : Txi} (h : tp.Onto tp') (hUri : tp.HasUri Heap.Laid uri) :
    tp'.HasUri Heap.Laid uri :=
  hUri.same h.request_uri (fun _ => h.grows.laid) fun _ hs m => h.grows.read hs.settled m

theorem Txi.Onto.hasRoutes {routes : List Bytes} {tp tp' : Txi} (h : tp.Onto tp')
    (hRoutes : tp.HasRoutes Heap.Laid routes) : tp'.HasRoutes Heap.Laid routes :=
  hRoutes.same h.routes (fun _ => h.grows.laid) fun _ hs m => h.grows.read hs.settled m

theorem onto_onScratch {α : Type} {x : HeapM α} (hGrows : Op.Keeps Heap.Grows x)
    (hMarked : Op.Keeps Heap.Marked x) (e : TmError) : Op.Keeps Txi.Onto (onScratch e x) := by
  refine .failWith ?_ e
  intro tp r tp' hRun
  obtain ⟨hp, hPart, rfl⟩ := Op.zoom_some.mp hRun
  exact ⟨hGrows _ _ _ hPart, hMarked _ _ _ hPart, rfl, rfl, rfl⟩

theorem onto_append (m : Mem) (s : Str) (e : TmError) : Op.Keeps Txi.Onto (onScratch e (Heap.append m s)) :=
  onto_onScratch (Heap.keeps_append m s) (Heap.marked_append m s) e

theorem onto_sprintf (t : Bytes) (e : TmError) : Op.Keeps Txi.Onto (onScratch e (Heap.sprintf t)) :=
  onto_onScratch (Heap.keeps_sprintf t) (Heap.marked_sprintf t) e

theorem onto_modUacCache {f : UacCache → UacCache} (hUri : ∀ u, (f u).request_uri = u.request_uri)
    (hRoutes : ∀ u, (f u).routes = u.routes) : Op.Keeps Txi.Onto (modUacCache f) :=
  .modify fun _ => ⟨Std.Refl.refl _, Std.Refl.refl _, hUri _, hRoutes _, rfl⟩

theorem onto_modCache {f : Cache → Cache} (hUac : ∀ c, (f c).uac = c.uac) (hCseq : ∀ c, (f c).cseq = c.cseq) :
    Op.Keeps Txi.Onto (modCache f) :=
  .modify fun _ => ⟨Std.Refl.refl _, Std.Refl.refl _, by simp only [hUac], by simp only [hUac], hCseq _⟩

theorem onto_callIdPolicy (policy : IdPolicy) (inp : IdPolicyIn) :
    Op.Keeps Txi.Onto (callIdPolicy policy inp) := by
  intro tp r tp' hRun
  simp only [callIdPolicy, Op.run_bind, Op.run_get, Op.andThen_ok, Op.run_modify] at hRun
  have hExtends := policy.extends_heap tp.id_calls inp tp.scratch
  have hAnswer : tp.Onto { tp with
      scratch := (policy.cb tp.id_calls inp tp.scratch).2, id_calls := tp.id_calls + 1 } :=
    ⟨hExtends.to_grows, Heap.marked_of_le hExtends.ncheckpoints hExtends.checkpoints hExtends.grows, rfl, rfl,
      rfl⟩
  exact IsTrans.trans _ _ _ hAnswer (Op.Keeps.orElse _ _ _ _ _ hRun)

theorem onto_generateIds (tm : Tm) (i : Nat) : Op.Keeps Txi.Onto (generateIds tm i) := by
  refine .bind .get fun tp => ?_
  split
  · exact onto_callIdPolicy _ _
  · exact .bind .get fun _ => .bind (onto_sprintf _ _) fun _ => .bind (onto_sprintf _ _) fun _ => .pure _

theorem onto_identify (m : Mem) (tp : Txi) : tp.Onto (tp.identify m) := by
  have hAny : ∀ (id : TmId) (method_type : Method), tp.Onto { tp with id, method_type } :=
    fun _ _ => ⟨Std.Refl.refl _, Std.Refl.refl _, rfl, rfl, rfl⟩
  exact hAny _ _

theorem onto_prepareIds (tm : Tm) (i : Nat) : Op.Keeps Txi.Onto (prepareIds tm i) :=
  .bind (onto_generateIds _ _) fun _ => .bind .get fun _ => .bind (.require _ _) fun _ =>
    .bind (onto_modCache (fun _ => rfl) fun _ => rfl) fun _ => .modify fun _ => onto_identify _ _

theorem onto_copyTargetAddr (m : Mem) (srcp : Addr) : Op.Keeps Txi.Onto (copyTargetAddr m srcp) :=
  .bind (.ite (fun _ => .pure _) fun _ => onto_append _ _ _) fun _ => .pure _

theorem onto_initUacPartiesByUri (m : Mem) (partiesp : RequestParties) (dialog_tagsp : DialogTags) :
    Op.Keeps Txi.Onto (initUacPartiesByUri m partiesp dialog_tagsp) :=
  .bind (onto_append _ _ _) fun _ => .bind (onto_modUacCache (fun _ => rfl) fun _ => rfl) fun _ =>
    .bind (onto_append _ _ _) fun _ => .bind (onto_modUacCache (fun _ => rfl) fun _ => rfl) fun _ =>
      .bind (onto_append _ _ _) fun _ => .bind (onto_modUacCache (fun _ => rfl) fun _ => rfl) fun _ =>
        .bind (onto_append _ _ _) fun _ => .bind (onto_modCache (fun _ => rfl) fun _ => rfl) fun _ =>
          .bind (onto_append _ _ _) fun _ => onto_modCache (fun _ => rfl) fun _ => rfl

/-! ## The request that is built -/

theorem BuildReq.build_routes {r : BuildReq} {first last : List BuildHdr} {routes : List Str}
    (hHdrs : r.hdrs = first ++ routes.map (fun s => ⟨.ROUTE, .generic s⟩) ++ last) :
    ∃ two rest, r.build = r.buildSline ++ (two ++
      (((routes.map fun s => (⟨.ROUTE, .generic s⟩ : BuildHdr)).map BuildHdr.build).flatten ++ rest)) := by
  have hRoutes : (routes.map fun s => (⟨.ROUTE, .generic s⟩ : BuildHdr)).filter
      (fun h => !((hdrDb h.hf_type).cantype == .CONTENTLENGTH)) =
        routes.map fun s => ⟨.ROUTE, .generic s⟩ := by
    refine List.filter_eq_self.mpr fun h hIn => ?_
    obtain ⟨s, -, rfl⟩ := List.mem_map.mp hIn
    rfl
  rw [BuildReq.build, hHdrs]
  simp only [List.filter_append, hRoutes, List.map_append, List.flatten_append, List.append_assoc]
  exact ⟨_, _, rfl⟩

theorem outAll_routes (m : Mem) (routes : List Str) :
    Chunk.outAll m.read ((routes.map fun s => (⟨.ROUTE, .generic s⟩ : BuildHdr)).map BuildHdr.build).flatten =
      routeLines (routes.map m.read) := by
  induction routes with
  | nil => rfl
  | cons s routes ih =>
    have hValue : BuildHdr.typed m ⟨.ROUTE, .generic s⟩ = (.ROUTE, m.read s) := by
      simp [BuildHdr.typed, HdrValue.build, Chunk.out]
    rw [List.map_cons, List.map_cons, List.flatten_cons, Chunk.outAll_append, ih, BuildReq.outAll_hdr, hValue]
    rfl

theorem strs_hdr {h : BuildHdr} {P : Str → Prop} (hLit : ∀ b, P (Str.lit b))
    (hValue : ∀ c ∈ h.value.build 2, ∀ s ∈ c.strs, P s) : ∀ c ∈ h.build, ∀ s ∈ c.strs, P s := by
  intro c hc s hs
  simp only [BuildHdr.build, List.mem_append, List.mem_cons, List.not_mem_nil, or_false] at hc
  rcases hc with ((rfl | rfl | rfl) | hIn) | rfl
  · cases hs
  · exact List.mem_singleton.mp hs ▸ hLit _
  · exact List.mem_singleton.mp hs ▸ hLit _
  · exact hValue c hIn s hs
  · exact List.mem_singleton.mp hs ▸ hLit _

/-- A request is written to go by what its slot has for it. -/
theorem buildRequest_text {tm : Tm} {i : Nat} {bp : BuildRequestParams} {uri : Bytes} {routes : List Bytes}
    {tp tp' : Txi} {u : Unit} (hGoes : tp.GoesBy uri routes)
    (hRun : (buildRequest tm i bp).run tp = some (.ok u, tp')) :
    ∀ m, RequestText tp.cache.cseq.method uri routes ((tp'.scratch.mem m).read tp'.raw) := by
  simp only [buildRequest, Op.bind_ok, Op.get_ok, Op.assert_ok, Op.require_ok, Op.orElse_ok, Op.demand_ok,
    Op.modify_ok] at hRun
  obtain ⟨_, _, ⟨rfl, rfl⟩, _, _, ⟨-, rfl⟩, _, t₁, hBack, _, t₂, hIds, _, _, ⟨rfl, rfl⟩, contact_expires, t₃,
    hContact, expires, t₄, hExpires, _, _, ⟨-, rfl⟩, clen, t₅, hClen, extra, _,
    ⟨-, rfl⟩, ruri, _, ⟨hUri, rfl⟩,
    raw, t₆, hBuild, rfl⟩ := hRun
  have hKept : tp.Kept {} t₁ := kept_rollbackTo _ _ _ _ hBack
  obtain ⟨hash, hCache⟩ := hKept.cache
  have hGoes₁ : t₁.GoesBy uri routes := hGoes.kept hKept.heap (by rw [hCache]) (by rw [hCache])
  have hOnto₂ : t₁.Onto t₂ := onto_prepareIds _ _ _ _ _ hIds
  have hOnto₃ : t₂.Onto t₃ :=
    Op.Keeps.ite (fun _ => onto_sprintf _ _) (fun _ => .pure _) _ _ _ hContact
  have hOnto₄ : t₃.Onto t₄ :=
    Op.Keeps.ite (fun _ => .bind (onto_sprintf _ _) fun _ => .pure _) (fun _ => .pure _) _ _ _ hExpires
  have hOnto₅ : t₄.Onto t₅ := Op.Keeps.ite (fun _ => onto_sprintf _ _) (fun _ => .pure _) _ _ _ hClen
  have hLater : t₂.Onto t₅ := IsTrans.trans _ _ _ hOnto₃ (IsTrans.trans _ _ _ hOnto₄ hOnto₅)
  have hGoes₅ : t₅.GoesBy uri routes := hLater.goesBy (hOnto₂.goesBy hGoes₁)
  obtain ⟨hp, hText, rfl⟩ := onScratch_ok.mp hBuild
  obtain ⟨up, hIs, hAll, hParsed⟩ := hGoes₅.uri
  obtain ⟨hHeld, hRead⟩ := hGoes₅.routes
  rw [← hLater.request_uri, hIs] at hUri
  obtain rfl := Option.some.inj hUri
  have hSettled : ∀ s, t₅.scratch.Holds s → t₅.scratch.Settled s := fun s hs k hSrc hSlot => by
    obtain ⟨b, hLit⟩ | ⟨j, -, -, hLe⟩ := hs
    · rw [hLit] at hSrc
      cases hSrc
    · exact Nat.le_trans hLe hGoes₅.top
  have hLit : ∀ b, t₅.scratch.Settled (Str.lit b) := fun b => t₅.scratch.settled_lit rfl
  generalize hMsg : requestMsg tm t₂ up (bp.payload.getD {}) contact_expires expires clen extra = r at hText
  have hMethod : r.method = tp.cache.cseq.method := by
    rw [← hMsg]
    refine congrArg Cseq.method (hOnto₂.cseq.trans ?_)
    rw [hCache]
  have hRuri : r.ruri = up := by rw [← hMsg]; rfl
  obtain ⟨two, rest, hSplit⟩ := @BuildReq.build_routes r _ _ t₅.cache.uac.routes (by
    rw [hLater.routes, ← hMsg, requestMsg]
    simp only [List.append_assoc]
    rfl)
  rw [hSplit] at hText
  have hOne : ∀ c ∈ r.buildSline, ∀ s ∈ c.strs, t₅.scratch.Settled s := by
    intro c hc s hs
    rw [BuildReq.buildSline, hRuri] at hc
    rcases List.mem_append.mp hc with hFirst | hLast
    · rcases List.mem_append.mp hFirst with hName | hIn
      · obtain rfl := List.mem_singleton.mp hName
        exact List.mem_singleton.mp hs ▸ hLit _
      · exact Uri.All.strs hLit (hAll.mono hSettled) c hIn s hs
    · simp only [List.mem_cons, List.not_mem_nil, or_false] at hLast
      rcases hLast with rfl | rfl
      · cases hs
      · exact List.mem_singleton.mp hs ▸ hLit _
  have hThree : ∀ c ∈ ((t₅.cache.uac.routes.map fun s => (⟨.ROUTE, .generic s⟩ : BuildHdr)).map
      BuildHdr.build).flatten, ∀ s ∈ c.strs, t₅.scratch.Settled s := by
    intro c hc s hs
    obtain ⟨cs, hcs, hIn⟩ := List.mem_flatten.mp hc
    obtain ⟨h, hh, rfl⟩ := List.mem_map.mp hcs
    obtain ⟨route, hRoute, rfl⟩ := List.mem_map.mp hh
    refine strs_hdr hLit (fun c' hc' s' hs' => ?_) c hIn s hs
    obtain rfl := List.mem_singleton.mp hc'
    exact List.mem_singleton.mp hs' ▸ hSettled _ (hHeld route hRoute)
  obtain ⟨y, z, hRaw⟩ := Heap.build_parts hOne hThree hText
  intro m
  obtain ⟨off, l, hView⟩ := Heap.build_view hText
  refine ⟨_, y, z, hParsed tm.mem, ?_⟩
  rw [Heap.read_view_any (Or.inr ⟨off, l, hView⟩) m tm.mem, hRaw, BuildReq.outAll_sline, outAll_routes, hRead,
    BuildReq.slineOut, BuildReq.uriOut, hRuri, hMethod, Uri.outAll_texts]

/-! ## The BYE -/

theorem Heap.Laid.read_any {hp : Heap} {s : Str} (h : hp.Laid s) (m m' : Mem) :
    (hp.mem m').read s = (hp.mem m).read s := by
  obtain ⟨b, hLit⟩ | ⟨i, hSrc, hSlot, -⟩ := h
  · exact Mem.read_of_lit hLit _ _
  · rw [read_own hSrc hSlot, read_own hSrc hSlot]

theorem uriParse_ok {m : Mem} {s : Str} {up : Uri} {hp hp' : Heap} (hLaid : hp.Laid s)
    (hRun : (Uri.parse m s).run hp = some (.ok up, hp')) :
    hp.Grows hp' ∧ hp.Marked hp' ∧ up.All hp'.Laid ∧
      ∀ m', Uri.parseText ((hp.mem m).read s) = some (up.texts (hp'.mem m')) := by
  obtain ⟨hWidens, hParts⟩ := Uri.parse_widens hRun
  have hAll := hLaid.parseParts hParts
  refine ⟨hWidens.grows, Heap.marked_uriParse _ _ _ _ _ hRun, hAll.mono fun _ => hWidens.grows.laid,
    fun m' => ?_⟩
  have hTexts := Uri.read_parseParts (hp.mem m) s
  rw [hParts, Option.map_some] at hTexts
  rw [← hTexts, hAll.texts fun t ht => ?_]
  rw [hWidens.mem_eq, ht.read_any m m']

theorem keeps_copyRouteSet (m : Mem) (srcp : List Str) : Op.Keeps Heap.Grows (copyRouteSet m srcp) := by
  cases srcp with
  | nil => exact .pure _
  | cons s srcs => exact .bind (Heap.keeps_alloc _) fun _ => Heap.keeps_appendAll m _

theorem copyRouteSet_ok {m : Mem} {srcp ss : List Str} {hp hp' : Heap}
    (hLit : ∀ s ∈ srcp, ∃ b, s.src = .lit b)
    (hRun : (copyRouteSet m srcp).run hp = some (.ok ss, hp')) :
    (∀ s ∈ ss, hp'.Laid s) ∧ ∀ m', ss.map (hp'.mem m').read = srcp.map (Mem.read fun _ => .zero) := by
  have hFrom : ∀ hp₁ : Heap, (appendAll m srcp).run hp₁ = some (.ok ss, hp') →
      (∀ s ∈ ss, hp'.Laid s) ∧ ∀ m', ss.map (hp'.mem m').read = srcp.map (Mem.read fun _ => .zero) := by
    intro hp₁ hCopies
    obtain ⟨-, hOwn, hReads⟩ := appendAll_ok (fun s hs => hp₁.settled_lit (hLit s hs).choose_spec) hCopies
    refine ⟨hOwn, fun m' => ?_⟩
    rw [List.map_congr_left fun s hs => (hOwn s hs).read_any m m', hReads]
    exact List.map_congr_left fun s hs => Mem.read_of_lit (hLit s hs).choose_spec _ _
  cases srcp with
  | nil => exact hFrom hp hRun
  | cons s srcs =>
    obtain ⟨_, hp₁, -, hCopies⟩ := Op.bind_ok.mp hRun
    exact hFrom hp₁ hCopies

/-- The checkpoint a request is built from, taken once the slot has what it goes by. -/
theorem goesBy_checkpoint {uri : Bytes} {routes : List Bytes} {tp tp' : Txi} {cp : Nat}
    (hUri : tp.HasUri Heap.Laid uri) (hRoutes : tp.HasRoutes Heap.Laid routes)
    (hRun : (onScratch .NOSPC Heap.checkpoint).run tp = some (.ok cp, tp')) :
    tp'.GoesBy uri routes ∧ tp'.cache = tp.cache := by
  obtain ⟨hp, hMark, rfl⟩ := onScratch_ok.mp hRun
  simp only [Heap.checkpoint, Op.bind_ok, Op.get_ok, Op.assert_ok, Op.modify_ok, Op.pure_ok] at hMark
  obtain ⟨_, _, ⟨rfl, rfl⟩, _, _, ⟨-, rfl⟩, _, _, rfl, -, rfl⟩ := hMark
  have hBase : ({ tp.scratch with checkpoints := tp.scratch.checkpoints ++ [tp.scratch.alen] } : Heap).base =
      tp.scratch.alen := by
    rw [Heap.base, List.getLast?_concat]
    rfl
  have hHolds : ∀ s, tp.scratch.Laid s →
      ({ tp.scratch with checkpoints := tp.scratch.checkpoints ++ [tp.scratch.alen] } : Heap).Holds s :=
    fun s hs => by
      rw [Heap.Holds, hBase]
      exact hs
  exact ⟨⟨Nat.le_of_eq hBase, hUri.same rfl hHolds fun _ _ _ => rfl,
    hRoutes.same rfl hHolds fun _ _ _ => rfl⟩,
    rfl⟩

theorem initUacRequest_hasUri {m : Mem} {request_idp : RequestId} {request_urip : Str}
    {mdp : Method} {b : Bytes}
    {tp tp' : Txi} {u : Unit} (hLit : request_urip.src = .lit b)
    (hRun : (initUacRequest m request_idp request_urip mdp).run tp = some (.ok u, tp')) :
    tp'.HasUri Heap.Laid (Mem.read (fun _ => .zero) request_urip) ∧ tp'.cache.cseq.method = mdp := by
  simp only [initUacRequest, modUacCache, modCache, Op.bind_ok, Op.modify_ok] at hRun
  obtain ⟨call_id, t₁, -, _, _, rfl, req_uri, t₂, hCopy, up, t₃, hParse, _, _, rfl, rfl⟩ := hRun
  obtain ⟨hp, hAppend, rfl⟩ := onScratch_ok.mp hCopy
  obtain ⟨hp', hUri, rfl⟩ := onScratch_ok.mp hParse
  obtain ⟨-, -, hRead, -⟩ := Heap.append_ok hAppend
  obtain ⟨-, -, hAll, hText⟩ := uriParse_ok (Heap.append_laid hAppend).1 hUri
  refine ⟨⟨up, rfl, hAll, fun m' => ?_⟩, rfl⟩
  rw [← Mem.read_of_lit hLit _ _, ← hRead]
  exact hText m'

/-- A slot filled with an in-dialog request goes by the Request-URI and the route set it is given. -/
theorem fillInDialog_goesBy {tpp : NewInDialogParams} {mdp : Method} {tm : Tm}
    {tp tp' : Txi} {a : Addr × Addr}
    (hUri : ∃ b, (paramStr tpp.request_target.request_uri).src = .lit b)
    (hRoutes : ∀ r ∈ tpp.route_set, ∃ b, r.src = .lit b)
    (hRun : (fillInDialog tpp mdp tm).run tp = some (.ok a, tp')) :
    tp'.GoesBy (Mem.read (fun _ => .zero) (paramStr tpp.request_target.request_uri))
        (tpp.route_set.map (Mem.read fun _ => .zero)) ∧ tp'.cache.cseq.method = mdp := by
  obtain ⟨_, t₁, hInit, hRun⟩ := Op.bind_ok.mp hRun
  obtain ⟨_, t₂, hParties, hRun⟩ := Op.bind_ok.mp hRun
  obtain ⟨routes, t₃, hCopies, hRun⟩ := Op.bind_ok.mp hRun
  obtain ⟨_, t₄, hMod, hRun⟩ := Op.bind_ok.mp hRun
  obtain rfl := Op.modify_ok.mp hMod
  obtain ⟨b, hLit⟩ := hUri
  obtain ⟨hHas, hMethod⟩ := initUacRequest_hasUri hLit hInit
  have hOnto₂ : t₁.Onto t₂ := onto_initUacPartiesByUri _ _ _ _ _ _ hParties
  have hOnto₃ : t₂.Onto t₃ :=
    onto_onScratch (keeps_copyRouteSet _ _) (Heap.marked_copyRouteSet _ _) _ _ _ _ hCopies
  have hHas₃ := hOnto₃.hasUri (hOnto₂.hasUri hHas)
  obtain ⟨hp, hCopy, rfl⟩ := onScratch_ok.mp hCopies
  have hRouted := copyRouteSet_ok hRoutes hCopy
  simp only [reserveUacSlot, Op.bind_ok, Op.demand_ok, Op.modify_ok, Op.pure_ok] at hRun
  obtain ⟨targetp, _, ⟨-, rfl⟩, target, t₅, hTarget, local_, t₆, hLocal, _, t₇, hInvite, cp,
    t₈, hMark, _, _, rfl, -,
    rfl⟩ := hRun
  have hOnto₅ : Txi.Onto _ t₅ := onto_copyTargetAddr _ _ _ _ _ hTarget
  have hOnto₆ : t₅.Onto t₆ :=
    Op.Keeps.ite (fun _ => onto_copyTargetAddr _ _) (fun _ => .pure _) _ _ _ hLocal
  have hOnto₇ : t₆.Onto t₇ := Op.Keeps.ite
    (fun _ => onto_onScratch (Heap.keeps_alloc _) (Heap.marked_alloc _) _) (fun _ => .pure _) _ _ _ hInvite
  have hLast : Txi.Onto _ t₇ := IsTrans.trans _ _ _ hOnto₅ (IsTrans.trans _ _ _ hOnto₆ hOnto₇)
  obtain ⟨hGoes, hCache⟩ := goesBy_checkpoint (hLast.hasUri hHas₃) (hLast.hasRoutes hRouted) hMark
  refine ⟨⟨hGoes.top, hGoes.uri, hGoes.routes⟩, ?_⟩
  dsimp only
  rw [hCache, hLast.cseq]
  exact (congrArg Cseq.method (hOnto₃.cseq.trans hOnto₂.cseq)).trans hMethod

/-- A new in-dialog transaction goes by the Request-URI and the route set it is made with. -/
theorem newInDialogTransaction_goesBy {tpp : NewInDialogParams} {tm tm' : Tm} {k : Nat}
    (hUri : ∃ b, (paramStr tpp.request_target.request_uri).src = .lit b)
    (hRoutes : ∀ r ∈ tpp.route_set, ∃ b, r.src = .lit b)
    (hRun : (newInDialogTransaction tpp).run tm = some (.ok k, tm')) :
    (tm'.tx k).GoesBy (Mem.read (fun _ => .zero) (paramStr tpp.request_target.request_uri))
        (tpp.route_set.map (Mem.read fun _ => .zero)) ∧
      Method.ofByte? tpp.request_id.method_type = some (tm'.tx k).cache.cseq.method := by
  simp only [newInDialogTransaction, lookupUacMethod, activateUacSlot, Op.bind_ok,
    Op.assert_ok, Op.require_ok,
    Op.demand_ok, Op.pure_ok, Op.modify_ok] at hRun
  obtain ⟨_, _, ⟨-, rfl⟩, _, _, ⟨-, rfl⟩, mdp, _,
    ⟨_, _, ⟨hMethod, rfl⟩, _, _, ⟨-, rfl⟩, _, _, ⟨-, rfl⟩, rfl, rfl⟩,
    i, t₁, -, ⟨target, local_⟩, t₂, hFill, _, t₃, ⟨_, _, rfl, hActivate⟩, _, t₄, hIds, rfl, rfl⟩ := hRun
  obtain ⟨tp₂, hPart, rfl⟩ := onSlot_ok.mp (Op.failWith_ok.mp hFill)
  obtain ⟨hGoes, hIs⟩ := fillInDialog_goesBy hUri hRoutes (Op.cleanup_ok.mp hPart)
  obtain ⟨tp₃, hPart, rfl⟩ := onSlot_ok.mp hActivate
  obtain rfl := Op.modify_ok.mp hPart
  obtain ⟨tp₄, hPart, rfl⟩ := onSlot_ok.mp (Op.failWith_ok.mp (Op.cleanup_ok.mp hIds))
  have hOnto := onto_prepareIds _ _ _ _ _ hPart
  rw [Tm.set_same] at hOnto ⊢
  simp only [Tm.activate, Tm.set_same] at hOnto
  have hMade : Txi.GoesBy _ _ _ := hOnto.goesBy ⟨hGoes.top, hGoes.uri, hGoes.routes⟩
  refine ⟨hMade, hMethod.trans ?_⟩
  rw [hOnto.cseq]
  exact congrArg some hIs.symm

/-! ## The ACK -/

/-- The ACK of a 2xx goes by the parameters of the dialog that the 2xx makes. -/
theorem applyUac2xxAckDialog_goesBy {tm : Tm} {i : Nat} {msg : Msg} {tp tp' : Txi} {u : Unit}
    (hLaid : ∀ d hp, (initUacDialogRequestParams tm i msg Method.ACK.cantype).run tp.scratch =
      some (.ok d, hp) → hp.Laid d.request_uri ∧ ∀ s ∈ d.routes, hp.Laid s)
    (hRun : (applyUac2xxAckDialog i msg tm).run tp = some (.ok u, tp')) :
    ∃ d hp, (initUacDialogRequestParams tm i msg Method.ACK.cantype).run tp.scratch = some (.ok d, hp) ∧
      tp'.HasUri Heap.Laid ((hp.mem tm.mem).read d.request_uri) ∧
        tp'.HasRoutes Heap.Laid (d.routes.map (hp.mem tm.mem).read) ∧ tp'.cache.cseq = tp.cache.cseq := by
  simp only [applyUac2xxAckDialog, modUacCache, modCache, Op.bind_ok, Op.modify_ok, Op.require_ok] at hRun
  obtain ⟨d, t₁, hParams, r, t₂, hParse, _, _, rfl, _, _, ⟨hSome, rfl⟩, _, _, rfl, _, _, rfl, rfl⟩ := hRun
  obtain ⟨hp, hInit, rfl⟩ := Op.zoom_ok.mp hParams
  obtain ⟨hUri, hRoutes⟩ := hLaid d hp hInit
  refine ⟨d, hp, hInit, ?_⟩
  cases r with
  | error e => cases hSome
  | ok up =>
    obtain ⟨_, hTried, hIs⟩ := Op.attempt_some.mp hParse
    cases hIs
    obtain ⟨hp', hScratch, rfl⟩ := onScratch_ok.mp hTried
    have hParts : (Uri.parse tm.mem d.request_uri).run hp = some (.ok up, hp') := hScratch
    have hOk := @uriParse_ok tm.mem d.request_uri up hp hp' hUri hParts
    obtain ⟨hGrows, hMarked, hAll, hText⟩ := hOk
    have hRead : ∀ m, d.routes.map (hp'.mem m).read = d.routes.map (hp.mem tm.mem).read := fun m =>
      List.map_congr_left fun s hs =>
        (hGrows.read (hRoutes s hs).settled m).trans ((hRoutes s hs).read_any _ _)
    have hOwn : ∀ s ∈ d.routes, hp'.Laid s := fun s hs => hGrows.laid (hRoutes s hs)
    refine ⟨?_, ?_, ?_⟩
    · exact Txi.HasUri.of_scratch rfl rfl hAll hText
    · exact Txi.HasRoutes.of_scratch rfl rfl hOwn hRead
    · rfl

theorem prepareAck_text {tm tm' : Tm} {index ack_index : Nat} {msg : Msg} {u : Unit}
    (hLaid : ∀ d hp, (initUacDialogRequestParams tm index msg Method.ACK.cantype).run
      (tm.tx ack_index).scratch = some (.ok d, hp) → hp.Laid d.request_uri ∧ ∀ s ∈ d.routes, hp.Laid s)
    (hNone : (tm.tx ack_index).raw.l = 0)
    (hRun : (prepareAck index ack_index msg 2).run tm = some (.ok u, tm')) :
    ∃ d hp, (initUacDialogRequestParams tm index msg Method.ACK.cantype).run (tm.tx ack_index).scratch =
        some (.ok d, hp) ∧
      ∀ m, RequestText (tm.tx ack_index).cache.cseq.method ((hp.mem tm.mem).read d.request_uri)
        (d.routes.map (hp.mem tm.mem).read)
          (((tm'.tx ack_index).scratch.mem m).read (tm'.tx ack_index).raw) := by
  rw [prepareAck, Op.run_bind, Op.run_get, Op.andThen_ok, if_neg (not_not.mpr hNone)] at hRun
  simp only [Op.bind_ok] at hRun
  obtain ⟨_, t₁, hApply, _, t₂, hMark, hBuild⟩ := hRun
  obtain ⟨tp₁, hApplied, rfl⟩ := onSlot_ok.mp hApply
  rw [if_pos True.intro] at hApplied
  obtain ⟨d, hp, hParams, hUri, hRoutes, hCseq⟩ := applyUac2xxAckDialog_goesBy hLaid hApplied
  obtain ⟨tp₂, hMarked, rfl⟩ := onSlot_ok.mp hMark
  obtain ⟨cp, tp, hTaken, hMod⟩ := Op.bind_ok.mp hMarked
  obtain rfl := Op.modify_ok.mp hMod
  rw [Tm.set_same] at hTaken
  obtain ⟨hGoes, hCache⟩ := goesBy_checkpoint hUri hRoutes hTaken
  obtain ⟨tp₃, hBuilt, rfl⟩ := onSlot_ok.mp (Op.failWith_ok.mp hBuild)
  rw [Tm.set_same] at hBuilt ⊢
  refine ⟨d, hp, hParams, fun m => ?_⟩
  have hText := @buildRequest_text _ _ _ _ _ { tp with checkpoint := some cp } _ _
    ⟨hGoes.top, hGoes.uri, hGoes.routes⟩ hBuilt m
  rwa [show tp.cache.cseq = _ from (congrArg Cache.cseq hCache).trans hCseq] at hText

/-! ## The requests of a dialog -/

/-- What a slot's request goes by has not changed. -/
structure Txi.StillFor (tp tp' : Txi) : Prop where
  heap : tp.scratch.KeptBelow tp'.scratch
  request_uri : tp'.cache.uac.request_uri = tp.cache.uac.request_uri
  routes : tp'.cache.uac.routes = tp.cache.uac.routes
  cseq : tp'.cache.cseq = tp.cache.cseq

/-- A BYE made with a dialog's parameters is written with their Request-URI and their routes, whenever it is
built. -/
def DialogRequest.WritesBye (m : Mem) (d : DialogRequest) : Prop :=
  ∀ (cseq : UInt32) (callbacks : Option UacCallbacks) (tm tm' tm₂ : Tm) (k : Nat) (tp tp' : Txi),
    (newInDialogTransaction { ({ d with cseq, method_type := Method.BYE.cantype } :
    DialogRequest).getParams with
      callbacks }).run tm = some (.ok k, tm') →
    (tm'.tx k).StillFor tp → (buildRequest tm₂ k {}).run tp = some (.ok (), tp') →
      ∀ m', RequestText .BYE (m.read d.request_uri) (d.routes.map m.read) ((tp'.scratch.mem m').read tp'.raw)

theorem writesBye_of_lit {d : DialogRequest} (hUri : ∃ b, d.request_uri.src = .lit b)
    (hRoutes : ∀ r ∈ d.routes, ∃ b, r.src = .lit b) (m : Mem) : d.WritesBye m := by
  intro cseq callbacks tm tm' tm₂ k tp tp' hRun hStill hBuild m'
  obtain ⟨hGoes, hMethod⟩ := @newInDialogTransaction_goesBy ({ ({ d with
    cseq, method_type := Method.BYE.cantype } : DialogRequest).getParams with callbacks })
      _ _ _ hUri hRoutes hRun
  have hText := buildRequest_text (hGoes.kept hStill.heap hStill.request_uri hStill.routes) hBuild m'
  have hBye : Method.ofByte? Method.BYE.cantype = some .BYE := by decide
  have hIs : (tm'.tx k).cache.cseq.method = .BYE := Option.some.inj (hMethod.symm.trans hBye)
  obtain ⟨b, hLit⟩ := hUri
  rw [hStill.cseq, hIs] at hText
  have hUriRead : m.read d.request_uri = Mem.read (fun _ => .zero) d.request_uri := Mem.read_of_lit hLit _ _
  have hRoutesRead : d.routes.map m.read = d.routes.map (Mem.read fun _ => .zero) :=
    List.map_congr_left fun r hr => Mem.read_of_lit (hRoutes r hr).choose_spec _ _
  rw [hUriRead, hRoutesRead]
  exact hText

/-- The 2xx to a sample INVITE, from `sip:h` by way of one route. -/
def okBy (route : String) : Msg :=
  { sline := .res resOk.code
    hdrs := [nameaddrHdr .CONTACT "sip:h", nameaddrHdr .RECORDROUTE route] ++
      (Sample.response resOk.code .INVITE).hdrs }

/-- The parameters of the dialog made by a sample INVITE and its 2xx. -/
def dialogBy (route : String) : Option (World × Except TmError DialogRequest × Heap) :=
  (Sample.after 3 [.call (.newUacTr (Sample.request .INVITE)), .call (.run 0 false), .turn 0,
    .turn 0, .turn 0, .turn 0, .call (.handleIncoming 1 (some (okBy route)))]).bind fun w =>
      ((initUacDialogRequestParams w.tm 0 (okBy route) Method.BYE.cantype).run
        (Heap.init none .zero dialogHeapSize 0)).map fun r => (w, r)

theorem recordRoutes_okBy {route : String} {uri : Bytes}
    (hTest : (NameAddr.parseParts (fun _ => .zero) (Str.lit (bytes route))).isSome = true)
    (hUri : Mem.read (fun _ => .zero) (nameaddr route).addr_spec = uri) :
    RecordRoutes (okBy route) [uri] :=
  .cons ⟨_, wireNameaddr_of_test _ hTest, hUri⟩ .nil

/-- The BYE of that dialog, made and built. -/
def byeBy (route : String) : Option (World × DialogRequest × Heap × Nat × Tm × Txi) := do
  let (w, .ok d, hp) ← dialogBy route | none
  let (.ok k, tm) ← (newInDialogTransaction { ({ d with
    cseq := 2, method_type := Method.BYE.cantype } : DialogRequest).getParams with callbacks :=
      none }).run w.tm | none
  let (.ok (), tp) ← (buildRequest tm k {}).run (tm.tx k) | none
  return (w, d, hp, k, tm, tp)

theorem byeBy_some {route : String} {w : World} {d : DialogRequest} {hp : Heap} {k : Nat} {tm : Tm} {tp : Txi}
    (h : byeBy route = some (w, d, hp, k, tm, tp)) :
    w.Reachable ∧ (initUacDialogRequestParams w.tm 0 (okBy route) Method.BYE.cantype).run
        (Heap.init none .zero dialogHeapSize 0) = some (.ok d, hp) ∧
      (newInDialogTransaction { ({ d with
        cseq := 2, method_type := Method.BYE.cantype } : DialogRequest).getParams with
          callbacks := none }).run
          w.tm = some (.ok k, tm) ∧ (buildRequest tm k {}).run (tm.tx k) = some (.ok (), tp) := by
  simp only [byeBy, Option.bind_eq_bind, Option.bind_eq_some_iff] at h
  obtain ⟨⟨w₁, r, hp₁⟩, hBy, h⟩ := h
  obtain ⟨w₂, hAfter, hOf⟩ := Option.bind_eq_some_iff.mp hBy
  obtain ⟨⟨r', hp₂⟩, hInit, hIs⟩ := Option.map_eq_some_iff.mp hOf
  obtain ⟨rfl, hPair⟩ := Prod.mk.inj hIs
  obtain ⟨rfl, rfl⟩ := Prod.mk.inj hPair
  cases r' with
  | error e => cases h
  | ok d₁ =>
    simp only [Option.bind_eq_some_iff] at h
    obtain ⟨⟨r, tm₁⟩, hMade, h⟩ := h
    cases r with
    | error e => cases h
    | ok k₁ =>
      simp only [Option.bind_eq_some_iff] at h
      obtain ⟨⟨r, tp₁⟩, hBuilt, h⟩ := h
      cases r with
      | error e => cases h
      | ok u =>
        cases h
        exact ⟨Sample.reachable_of_after hAfter, hInit, hMade, hBuilt⟩

/-- A dialog with a 2xx that came by one route, its BYE sent. -/
def endedBy (route : String) : List Label :=
  [.call (.newUacTr (Sample.request .INVITE)), .call (.run 0 false), .turn 0, .turn 0, .turn 0, .turn 0,
    .call (.handleIncoming 1 (some (okBy route))), .call (.dialogUacCtor 0 (okBy route)),
    .call (.dialogEnd 0 none), .call (.run 2 false), .turn 0, .turn 0, .turn 0, .turn 0]

/-- What is sent, if it is a request with one Route header, that many bytes after the start line. -/
def Event.isRouted (method : Method) (t : UriText) (route : Bytes) (skip : Nat) : Event → Bool
  | .send _ _ raw _ rval =>
    let start := method.name ++ ch ' ' :: (Uri.textOut t ++ ch ' ' :: bytes "SIP/2.0") ++ [13, 10]
    let others := raw.drop start.length
    rval = 0 ∧ raw = start ++ (others.take skip ++ routeLines [route] ++
      (others.drop skip).drop (routeLines [route]).length)
  | _ => false

end Microsippy
