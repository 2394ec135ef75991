import Microsippy.WireSplit

/-! # Headers with lists of values

What `usipy_sip_hdr_preparse` makes of a header whose value is a list: the entries it writes and where,
and for which values they are the elements between the commas outside of quoted strings and brackets.
-/

namespace Microsippy

set_option autoImplicit false

namespace ListHdr

/-! ## The table of headers -/

/-- The headers of a message by where they are, and where `usipy_sip_hdr_preparse` has written. -/
structure HdrTab where
  entry : Nat → WireHdr
  written : List Nat := []

def HdrTab.put (tab : HdrTab) (shp : Nat) (h : WireHdr) : HdrTab where
  entry := Function.update tab.entry shp h
  written := tab.written ++ [shp]

/-- An element split off the value of an entry, and the rest put into the next one. -/
def HdrTab.advance (m : Mem) (tab : HdrTab) (shp : Nat) (value csp : Str) : HdrTab :=
  let tab := tab.put shp { tab.entry shp with value := value.ltrm m }
  let prev := tab.entry shp
  let shp := shp + sizeofHdr
  tab.put shp { tab.entry shp with
    hf_type := prev.hf_type, value := csp, onwire_hf_type := prev.onwire_hf_type, name := prev.name }

/-- The loop of `usipy_sip_hdr_preparse`, with what it leaves in `shp` and `nextra`. A turn takes a
comma, so the length of the value is fuel enough. -/
def listLoop (m : Mem) (ehp : Nat) : Nat → HdrTab → Nat → Str → Nat → HdrTab × Option (Nat × Nat)
  | 0, tab, shp, _, nextra => (tab, some (shp, nextra))
  | fuel + 1, tab, shp, csp, nextra =>
    if csp.l = 0 then (tab, some (shp, nextra))
    else
      match csp.split m (ch ',') with
      | none => (tab, some (shp, nextra))
      | some (value, csp) =>
        let tab := tab.put shp { tab.entry shp with value }
        if shp + 2 * sizeofHdr > ehp then (tab, none)
        else listLoop m ehp fuel (tab.advance m shp value csp) (shp + sizeofHdr) csp (nextra + 1)

/-- `usipy_sip_hdr_preparse` on a table. -/
def preparse (T : Shift) (m : Mem) (tab : HdrTab) (shp ehp : Nat) : HdrTab × Option Nat :=
  match (tab.entry shp).full.split m (ch ':') with
  | none => (tab, none)
  | some (name, value) =>
    let name := name.trmE m
    let hdep := hdrDbLookup T (m.read name)
    let hf_type := if (hdrDb hdep).iscmpct then (hdrDb hdep).cantype else hdep
    let tab := tab.put shp { tab.entry shp with name, value, onwire_hf_type := hdep, hf_type }
    match (if (hdrDb hdep).csl_allowed then listLoop m ehp value.l tab shp value 0
      else (tab, some (shp, 0))) with
    | (tab, none) => (tab, none)
    | (tab, some (shp, nextra)) =>
      (tab.put shp { tab.entry shp with value := (tab.entry shp).value.ltrm m }, some nextra)

@[simp] theorem HdrTab.entry_put_same (tab : HdrTab) (shp : Nat) (h : WireHdr) :
    (tab.put shp h).entry shp = h := Function.update_self ..

theorem HdrTab.entry_put_ne {tab : HdrTab} {shp o : Nat} {h : WireHdr} (hNe : o ≠ shp) :
    (tab.put shp h).entry o = tab.entry o := Function.update_of_ne hNe ..

theorem HdrTab.mem_written_put {tab : HdrTab} {shp o : Nat} {h : WireHdr}
    (hIn : o ∈ (tab.put shp h).written) : o ∈ tab.written ∨ o = shp :=
  (List.mem_append.mp hIn).imp_right List.mem_singleton.mp

/-- The last entry of a list trimmed. -/
def finish (m : Mem) : HdrTab × Option (Nat × Nat) → HdrTab × Option Nat
  | (tab, none) => (tab, none)
  | (tab, some (shp, nextra)) =>
    (tab.put shp { tab.entry shp with value := (tab.entry shp).value.ltrm m }, some nextra)

/-- What an entry of a line has: its name, its types and a value. -/
structure Entry (h : WireHdr) (name : Str) (onwire_hf_type hf_type : Hf) (value : Str) : Prop where
  name : h.name = name
  onwire_hf_type : h.onwire_hf_type = onwire_hf_type
  hf_type : h.hf_type = hf_type
  value : h.value = value

/-- Entries one after the other. -/
def Entries (tab : HdrTab) (name : Str) (onwire_hf_type hf_type : Hf) : Nat → List Str → Prop
  | _, [] => True
  | shp, v :: vs => Entry (tab.entry shp) name onwire_hf_type hf_type v ∧
    Entries tab name onwire_hf_type hf_type (shp + sizeofHdr) vs

section

variable {m : Mem} {ehp fuel shp nextra o : Nat} {tab : HdrTab} {value csp : Str}

theorem mem_written_advance (h : o ∈ (tab.advance m shp value csp).written) :
    o ∈ tab.written ∨ o = shp ∨ o = shp + sizeofHdr := by
  obtain hFirst | rfl := HdrTab.mem_written_put h
  · exact (HdrTab.mem_written_put hFirst).imp_right Or.inl
  · exact Or.inr (Or.inr rfl)

theorem entry_advance_frame (h : o < shp) : (tab.advance m shp value csp).entry o = tab.entry o := by
  rw [HdrTab.advance, HdrTab.entry_put_ne (by omega), HdrTab.entry_put_ne (by omega)]

theorem entry_advance_same : (tab.advance m shp value csp).entry shp =
    { tab.entry shp with value := value.ltrm m } := by
  have hNe : shp ≠ shp + sizeofHdr := by simp [sizeofHdr]
  rw [HdrTab.advance, HdrTab.entry_put_ne hNe, HdrTab.entry_put_same]

theorem entry_advance_next : Entry ((tab.advance m shp value csp).entry (shp + sizeofHdr))
    (tab.entry shp).name (tab.entry shp).onwire_hf_type (tab.entry shp).hf_type csp := by
  rw [HdrTab.advance, HdrTab.entry_put_same, HdrTab.entry_put_same]
  exact ⟨rfl, rfl, rfl, rfl⟩

/-- A turn of the loop. -/
theorem listLoop_succ : listLoop m ehp (fuel + 1) tab shp csp nextra =
    if csp.l = 0 then (tab, some (shp, nextra))
    else (csp.split m (ch ',')).elim (tab, some (shp, nextra)) fun x =>
      if shp + 2 * sizeofHdr > ehp then (tab.put shp { tab.entry shp with value := x.1 }, none)
      else listLoop m ehp fuel ((tab.put shp { tab.entry shp with value := x.1 }).advance m shp x.1 x.2)
        (shp + sizeofHdr) x.2 (nextra + 1) := by
  rw [listLoop]
  cases csp.split m (ch ',') <;> rfl

/-- The writes of the loop are where it begins or below the end. -/
theorem finish_written (hRoom : shp + sizeofHdr ≤ ehp)
    (h : o ∈ (finish m (listLoop m ehp fuel tab shp csp nextra)).1.written) :
    o ∈ tab.written ∨ o + sizeofHdr ≤ ehp := by
  have hHere : ∀ {tab : HdrTab} {shp : Nat} {h : WireHdr}, shp + sizeofHdr ≤ ehp →
      o ∈ (tab.put shp h).written → o ∈ tab.written ∨ o + sizeofHdr ≤ ehp := by
    intro tab shp h hRoom hIn
    obtain hOld | rfl := HdrTab.mem_written_put hIn
    · exact Or.inl hOld
    · exact Or.inr hRoom
  induction fuel generalizing tab shp csp nextra with
  | zero => exact hHere hRoom h
  | succ fuel ih =>
    rw [listLoop_succ] at h
    split at h
    · exact hHere hRoom h
    · cases hSplit : csp.split m (ch ',') with
      | none =>
        rw [hSplit] at h
        exact hHere hRoom h
      | some x =>
        rw [hSplit, Option.elim_some] at h
        split at h
        · exact hHere hRoom h
        · obtain hBefore | hBelow := ih (by omega) h
          · obtain hOld | rfl | rfl := mem_written_advance hBefore
            · exact hHere hRoom hOld
            · exact Or.inr hRoom
            · exact Or.inr (by omega)
          · exact Or.inr hBelow

/-- The loop writes no entry below where it begins. -/
theorem finish_frame (h : o < shp) :
    (finish m (listLoop m ehp fuel tab shp csp nextra)).1.entry o = tab.entry o := by
  induction fuel generalizing tab shp csp nextra with
  | zero => exact HdrTab.entry_put_ne (by omega)
  | succ fuel ih =>
    rw [listLoop_succ]
    split
    · exact HdrTab.entry_put_ne (by omega)
    · cases csp.split m (ch ',') with
      | none => exact HdrTab.entry_put_ne (by omega)
      | some x =>
        rw [Option.elim_some]
        split
        · exact HdrTab.entry_put_ne (by omega)
        · rw [ih (by omega), entry_advance_frame h, HdrTab.entry_put_ne (by omega)]

/-- Where there is no room for the entries the loop fails. -/
theorem finish_none (h : preparseList m ehp fuel shp csp = none) :
    (finish m (listLoop m ehp fuel tab shp csp nextra)).2 = none := by
  induction fuel generalizing tab shp csp nextra with
  | zero => cases h
  | succ fuel ih =>
    rw [preparseList] at h
    rw [listLoop_succ]
    split at h
    · cases h
    · rename_i hSome
      rw [if_neg hSome]
      cases hSplit : csp.split m (ch ',') with
      | none =>
        rw [hSplit] at h
        cases h
      | some x =>
        rw [hSplit] at h
        rw [Option.elim_some]
        dsimp only at h
        split at h
        · rename_i hFull
          rw [if_pos hFull]
          rfl
        · rename_i hFits
          rw [if_neg hFits]
          exact ih (Option.map_eq_none_iff.mp h)

/-- The loop writes the entries of the list, each with the name and the types of the line. -/
theorem finish_some {vs : List Str} (hValue : (tab.entry shp).value = csp)
    (h : preparseList m ehp fuel shp csp = some vs) :
    vs ≠ [] ∧ (finish m (listLoop m ehp fuel tab shp csp nextra)).2 = some (nextra + (vs.length - 1)) ∧
      Entries (finish m (listLoop m ehp fuel tab shp csp nextra)).1 (tab.entry shp).name
        (tab.entry shp).onwire_hf_type (tab.entry shp).hf_type shp vs := by
  have hLast : ∀ {tab : HdrTab} {shp : Nat} {csp : Str} {nextra : Nat}, (tab.entry shp).value = csp →
      [csp.ltrm m] ≠ [] ∧ (finish m (tab, some (shp, nextra))).2 = some (nextra + ([csp.ltrm m].length - 1)) ∧
        Entries (finish m (tab, some (shp, nextra))).1 (tab.entry shp).name
          (tab.entry shp).onwire_hf_type (tab.entry shp).hf_type shp [csp.ltrm m] := by
    intro tab shp csp nextra hValue
    refine ⟨List.cons_ne_nil _ _, rfl, ?_, trivial⟩
    rw [finish, HdrTab.entry_put_same]
    exact ⟨rfl, rfl, rfl, congrArg (·.ltrm m) hValue⟩
  induction fuel generalizing tab shp csp nextra vs with
  | zero =>
    obtain rfl := Option.some.inj h
    exact hLast hValue
  | succ fuel ih =>
    rw [preparseList] at h
    rw [listLoop_succ]
    split at h
    · rename_i hNone
      obtain rfl := Option.some.inj h
      rw [if_pos hNone]
      exact hLast hValue
    · rename_i hSome
      rw [if_neg hSome]
      cases hSplit : csp.split m (ch ',') with
      | none =>
        rw [hSplit] at h
        obtain rfl := Option.some.inj h
        exact hLast hValue
      | some x =>
        rw [hSplit] at h
        dsimp only at h
        rw [Option.elim_some]
        split at h
        · cases h
        · rename_i hFits
          rw [if_neg hFits]
          obtain ⟨vs, hRest, rfl⟩ := Option.map_eq_some_iff.mp h
          generalize hTab : (tab.put shp { tab.entry shp with value := x.1 }).advance m shp x.1 x.2 = next
          have hNext := @entry_advance_next m shp (tab.put shp { tab.entry shp with value := x.1 }) x.1 x.2
          have hHere := @entry_advance_same m shp (tab.put shp { tab.entry shp with value := x.1 }) x.1 x.2
          rw [HdrTab.entry_put_same] at hNext hHere
          rw [hTab] at hNext hHere
          obtain ⟨hNonempty, hCount, hEntries⟩ :=
            @ih (shp + sizeofHdr) (nextra + 1) next x.2 vs hNext.value hRest
          have hPos := List.length_pos_iff.mpr hNonempty
          refine ⟨List.cons_ne_nil _ _, ?_, ?_, ?_⟩
          · rw [hCount, List.length_cons]
            congr 1
            omega
          · rw [finish_frame (by simp [sizeofHdr]), hHere]
            exact ⟨rfl, rfl, rfl, rfl⟩
          · rw [hNext.name, hNext.onwire_hf_type, hNext.hf_type] at hEntries
            exact hEntries

end

theorem preparse_eq {T : Shift} {m : Mem} {tab : HdrTab} {shp ehp : Nat} {name value : Str}
    (hSplit : (tab.entry shp).full.split m (ch ':') = some (name, value))
    (hList : (hdrDb (hdrDbLookup T (m.read (name.trmE m)))).csl_allowed = true) :
    preparse T m tab shp ehp = finish m (listLoop m ehp value.l
      (tab.put shp { tab.entry shp with
        name := name.trmE m, value
        onwire_hf_type := hdrDbLookup T (m.read (name.trmE m))
        hf_type := if (hdrDb (hdrDbLookup T (m.read (name.trmE m)))).iscmpct then
          (hdrDb (hdrDbLookup T (m.read (name.trmE m)))).cantype
          else hdrDbLookup T (m.read (name.trmE m)) }) shp value 0) := by
  rw [preparse, hSplit]
  dsimp only
  rw [if_pos hList]
  rfl

/-! ## The elements of a list -/

/-- Where a byte of a value stands. -/
inductive Place where
  | plain | quoted | escaped | bracket
  deriving DecidableEq, Repr

/-- Whether a quoted string that was opened is closed again. -/
def closes : Bytes → Bool
  | [] => false
  | [c] => c == ch '"'
  | c :: d :: cs =>
    if c = ch '"' then true else if c = ch '\\' then closes cs else closes (d :: cs)

/-- The bytes of a value, and whether they are in a quoted string or between angle brackets. -/
def label : Place → Bytes → List (UInt8 × Bool)
  | _, [] => []
  | .plain, c :: cs =>
    (c, false) :: label (if c = ch '"' ∧ closes cs = true then .quoted
      else if c = ch '<' ∧ ch '>' ∈ cs then .bracket else .plain) cs
  | .quoted, c :: cs =>
    (c, true) :: label (if c = ch '\\' then .escaped else if c = ch '"' then .plain else .quoted) cs
  | .escaped, c :: cs => (c, true) :: label .quoted cs
  | .bracket, c :: cs => (c, true) :: label (if c = ch '>' then .plain else .bracket) cs

/-- The elements of a list: what is between the commas outside of quoted strings and brackets. -/
def listElements (b : Bytes) : List Bytes :=
  ((label .plain b).splitOn (ch ',', false)).map (List.map Prod.fst)

/-- A value with a comma in a quoted string or between angle brackets. -/
def CommaInside (b : Bytes) : Prop := (ch ',', true) ∈ label .plain b

theorem map_label (p : Place) (b : Bytes) : (label p b).map Prod.fst = b := by
  induction b generalizing p with
  | nil => cases p <;> rfl
  | cons c cs ih => cases p <;> rw [label, List.map_cons, ih]

/-- The elements with their commas are the value. -/
theorem intercalate_listElements (b : Bytes) : [ch ','].intercalate (listElements b) = b := by
  have hMap : ∀ xs : List (List (UInt8 × Bool)),
      [ch ','].intercalate (xs.map (List.map Prod.fst)) =
        ([(ch ',', false)].intercalate xs).map Prod.fst := by
    intro xs
    induction xs with
    | nil => rfl
    | cons x xs ih =>
      cases xs with
      | nil => simp
      | cons y ys =>
        rw [List.map_cons, List.map_cons, List.intercalate_cons_cons, List.intercalate_cons_cons,
          ← List.map_cons, ih, List.map_append, List.map_append]
        rfl
  rw [listElements, hMap, List.intercalate_splitOn, map_label]

section

variable {d : UInt8} {L : List (UInt8 × Bool)}

theorem length_splitOn {α : Type} [BEq α] [LawfulBEq α] (a : α) (xs : List α) :
    (xs.splitOn a).length = xs.count a + 1 := by
  induction xs with
  | nil => rfl
  | cons x xs ih =>
    rw [List.splitOn_cons_eq_if_modifyHead, List.count_cons]
    split
    · rw [List.length_cons, ih]
    · rw [List.length_modifyHead, ih]

/-- Without a delimiter inside, it does not matter where the others stand. -/
theorem splitOn_outside (h : (d, true) ∉ L) :
    (L.splitOn (d, false)).map (List.map Prod.fst) = (L.map Prod.fst).splitOn d := by
  induction L with
  | nil => rfl
  | cons x L ih =>
    obtain ⟨hHead, hRest⟩ := not_or.mp fun hIn => h (List.mem_cons.mpr hIn)
    obtain ⟨c, b⟩ := x
    have hSame : ((c, b) == (d, false)) = (c == d) := by
      rw [Bool.eq_iff_iff, beq_iff_eq, beq_iff_eq, Prod.mk.injEq, and_iff_left_iff_imp]
      rintro rfl
      exact Bool.eq_false_iff.mpr fun hb => hHead (hb ▸ rfl)
    rw [List.splitOn_cons_eq_if_modifyHead, List.map_cons, List.splitOn_cons_eq_if_modifyHead, ← ih hRest,
      hSame]
    split
    · rfl
    · cases L.splitOn (d, false) <;> rfl

theorem count_labelled : (L.map Prod.fst).count d = L.count (d, false) + L.count (d, true) := by
  induction L with
  | nil => rfl
  | cons x L ih =>
    obtain ⟨c, b⟩ := x
    have hOne : (if c == d then 1 else 0) =
        (if (c, b) == (d, false) then 1 else 0) + if (c, b) == (d, true) then 1 else 0 := by
      simp only [beq_iff_eq, Prod.mk.injEq]
      cases b <;> simp
    rw [List.map_cons, List.count_cons, List.count_cons, List.count_cons, ih, hOne]
    omega

end

/-- The plain split is that into elements if and only if no comma is inside. -/
theorem length_listElements (b : Bytes) :
    (b.splitOn (ch ',')).length = (listElements b).length + (label .plain b).count (ch ',', true) := by
  rw [listElements, List.length_map, length_splitOn, length_splitOn]
  have hCount := @count_labelled (ch ',') (label .plain b)
  rw [map_label] at hCount
  omega

/-! ## Lines with lists -/

/-- The list has room for its entries or fails. -/
theorem preparseList_isSome {m : Mem} {ehp fuel shp : Nat} {csp : Str} (hRoom : shp + sizeofHdr ≤ ehp)
    (hFuel : csp.l ≤ fuel) : (preparseList m ehp fuel shp csp).isSome ↔
      shp + sizeofHdr * ((m.read csp).splitOn (ch ',')).length ≤ ehp := by
  have hOne : ∀ {shp : Nat} {csp : Str}, shp + sizeofHdr ≤ ehp → ch ',' ∉ m.read csp →
      ((some [csp.ltrm m] : Option (List Str)).isSome ↔
        shp + sizeofHdr * ((m.read csp).splitOn (ch ',')).length ≤ ehp) := by
    intro shp csp hRoom hNot
    rw [List.splitOn_eq_singleton hNot]
    simpa using hRoom
  have hEmpty : ∀ csp : Str, csp.l = 0 → ch ',' ∉ m.read csp := by
    intro csp hNil
    rw [Mem.read_of_empty hNil]
    exact List.not_mem_nil
  induction fuel generalizing shp csp with
  | zero => exact hOne hRoom (hEmpty csp (by omega))
  | succ fuel ih =>
    rw [preparseList]
    split
    · rename_i hNil
      exact hOne hRoom (hEmpty csp hNil)
    · cases hSplit : csp.split m (ch ',') with
      | none => exact hOne hRoom (Str.split_eq_none_iff.mp hSplit)
      | some x =>
        obtain ⟨hRead, hNot, hLt⟩ := Str.read_split hSplit
        have hPos := List.length_pos_iff.mpr (List.splitOn_ne_nil (ch ',') (m.read x.2))
        dsimp only
        rw [hRead, List.splitOn_append_cons_self_of_not_mem hNot, List.length_cons]
        split
        · rename_i hFull
          simp only [sizeofHdr] at *
          simp
          omega
        · rename_i hFits
          have hNext := @ih (shp + sizeofHdr) x.2 (by omega) (by omega)
          rw [Option.isSome_map]
          apply hNext.trans
          simp only [sizeofHdr] at *
          omega

theorem Entries.get {tab : HdrTab} {name : Str} {onwire_hf_type hf_type : Hf} {shp : Nat} {vs : List Str}
    (h : Entries tab name onwire_hf_type hf_type shp vs) {i : Nat} {v : Str} (hAt : vs[i]? = some v) :
    Entry (tab.entry (shp + sizeofHdr * i)) name onwire_hf_type hf_type v := by
  induction vs generalizing shp i with
  | nil => cases hAt
  | cons u vs ih =>
    obtain ⟨hHead, hRest⟩ := h
    cases i with
    | zero =>
      obtain rfl := Option.some.inj hAt
      exact hHead
    | succ i =>
      have hNext := ih hRest hAt
      rwa [Nat.add_assoc, Nat.add_comm sizeofHdr, ← Nat.mul_succ] at hNext

/-- The type of a line, that of its canonical name. -/
theorem cantype_eq (hdep : Hf) :
    (if (hdrDb hdep).iscmpct then (hdrDb hdep).cantype else hdep) = (hdrDb hdep).cantype := by
  have hAll : ∀ hdep ∈ Hf.all,
      (if (hdrDb hdep).iscmpct then (hdrDb hdep).cantype else hdep) = (hdrDb hdep).cantype := by
    decide +kernel
  exact hAll hdep hdep.mem_all

/-- The bytes of the line at an entry. -/
def HdrTab.line (m : Mem) (tab : HdrTab) (shp : Nat) : Bytes := m.read (tab.entry shp).full

/-- The elements of the value of a line. -/
def HdrTab.elements (m : Mem) (tab : HdrTab) (shp : Nat) : List Bytes :=
  listElements (hdrRest (tab.line m shp))

/-- The entries made of a line are the elements of its value, trimmed and in order, each with the name
and the type of the line; their number is reported but for the first, none is beyond the end of the
table, and the line fails where they have no room. -/
structure SplitsList (T : Shift) (m : Mem) (tab : HdrTab) (shp ehp : Nat) : Prop where
  below : ∀ o ∈ (preparse T m tab shp ehp).1.written, o ∈ tab.written ∨ o + sizeofHdr ≤ ehp
  fits : shp + sizeofHdr * (tab.elements m shp).length ≤ ehp →
    (preparse T m tab shp ehp).2 = some ((tab.elements m shp).length - 1) ∧
    ∀ i e, (tab.elements m shp)[i]? = some e →
      let h := (preparse T m tab shp ehp).1.entry (shp + sizeofHdr * i)
      m.read h.name = hdrName (tab.line m shp) ∧ m.read h.value = trimLws e ∧
        h.onwire_hf_type = hdrDbLookup T (hdrName (tab.line m shp)) ∧
        h.hf_type = (hdrDb (hdrDbLookup T (hdrName (tab.line m shp)))).cantype
  fails : ehp < shp + sizeofHdr * (tab.elements m shp).length → (preparse T m tab shp ehp).2 = none

/-- What a line with a list makes, by its value. -/
theorem preparse_spec {T : Shift} {m : Mem} {tab : HdrTab} {shp ehp : Nat} {name value : Str}
    (hSplit : (tab.entry shp).full.split m (ch ':') = some (name, value))
    (hList : (hdrDb (hdrDbLookup T (m.read (name.trmE m)))).csl_allowed = true)
    (hRoom : shp + sizeofHdr ≤ ehp) :
    (∀ o ∈ (preparse T m tab shp ehp).1.written, o ∈ tab.written ∨ o + sizeofHdr ≤ ehp) ∧
      ((preparse T m tab shp ehp).2 = none ∧
          ehp < shp + sizeofHdr * ((m.read value).splitOn (ch ',')).length ∨
        ∃ vs, vs.map m.read = ((m.read value).splitOn (ch ',')).map trimLws ∧
          shp + sizeofHdr * ((m.read value).splitOn (ch ',')).length ≤ ehp ∧
          (preparse T m tab shp ehp).2 = some (vs.length - 1) ∧
          Entries (preparse T m tab shp ehp).1 (name.trmE m)
            (hdrDbLookup T (m.read (name.trmE m)))
            (hdrDb (hdrDbLookup T (m.read (name.trmE m)))).cantype shp vs) := by
  have hFits := @preparseList_isSome m ehp value.l shp value hRoom (Nat.le_refl _)
  rw [preparse_eq hSplit hList, cantype_eq]
  constructor
  · intro o hIn
    obtain hPut | hBelow := finish_written hRoom hIn
    · obtain hOld | rfl := HdrTab.mem_written_put hPut
      · exact Or.inl hOld
      · exact Or.inr hRoom
    · exact Or.inr hBelow
  · cases hValues : preparseList m ehp value.l shp value with
    | none =>
      rw [hValues, Option.isSome_none] at hFits
      exact Or.inl ⟨finish_none hValues, Nat.lt_of_not_le fun hLe => Bool.noConfusion (hFits.mpr hLe)⟩
    | some vs =>
      rw [hValues, Option.isSome_some] at hFits
      have hPut := tab.entry_put_same shp { tab.entry shp with
        name := name.trmE m, value, onwire_hf_type := hdrDbLookup T (m.read (name.trmE m))
        hf_type := (hdrDb (hdrDbLookup T (m.read (name.trmE m)))).cantype }
      obtain ⟨-, hCount, hEntries⟩ := @finish_some m ehp value.l shp 0 _ value vs
        (congrArg WireHdr.value hPut) hValues
      rw [hPut] at hEntries
      rw [Nat.zero_add] at hCount
      exact Or.inr ⟨vs, preparseList_read hValues (Nat.le_refl _), hFits.mp rfl, hCount, hEntries⟩

/-- A line with a list is split into its elements if and only if no comma is inside of one, or the
elements have no room. -/
theorem splitsList_iff {T : Shift} {m : Mem} {tab : HdrTab} {shp ehp : Nat}
    (hColon : ch ':' ∈ tab.line m shp)
    (hList : (hdrDb (hdrDbLookup T (hdrName (tab.line m shp)))).csl_allowed = true)
    (hRoom : shp + sizeofHdr ≤ ehp) :
    SplitsList T m tab shp ehp ↔ ¬ CommaInside (hdrRest (tab.line m shp)) ∨
      ehp < shp + sizeofHdr * (tab.elements m shp).length := by
  obtain ⟨y, z, hFull, hFirst⟩ := List.eq_append_cons_of_mem hColon
  obtain ⟨name, value, hSplit, -⟩ := Str.split_of_append hFull hFirst
  obtain ⟨hRead, hNot, -⟩ := Str.read_split hSplit
  obtain ⟨hName, hRest⟩ := hdrName_of_append (z := m.read value) hNot
  rw [← hRead, ← Str.read_trmE] at hName
  rw [← hRead] at hRest
  have hLine : hdrName (tab.line m shp) = m.read (name.trmE m) := hName
  have hElements : tab.elements m shp = listElements (m.read value) := congrArg listElements hRest
  rw [hLine] at hList
  obtain ⟨hBelow, hResult⟩ := preparse_spec hSplit hList hRoom
  have hMore := length_listElements (m.read value)
  have hPos : 0 < (listElements (m.read value)).length := by
    rw [listElements, List.length_map]
    exact List.length_pos_iff.mpr (List.splitOn_ne_nil _ _)
  rw [show hdrRest (tab.line m shp) = m.read value from hRest, CommaInside, ← List.count_pos_iff, hElements]
  constructor
  · rintro ⟨-, hFits, -⟩
    rw [or_iff_not_imp_right]
    intro hRoomFor hIn
    rw [hElements] at hFits
    obtain ⟨hSome, -⟩ := hFits (Nat.le_of_not_lt hRoomFor)
    obtain ⟨hNone, -⟩ | ⟨vs, hTexts, -, hIs, -⟩ := hResult
    · rw [hNone] at hSome
      cases hSome
    · have hLength := congrArg List.length hTexts
      rw [hIs, Option.some.injEq] at hSome
      rw [List.length_map, List.length_map] at hLength
      omega
  · intro hCase
    constructor
    · exact hBelow
    · intro hFits
      rw [hElements] at hFits ⊢
      have hOutside : (ch ',', true) ∉ label .plain (m.read value) := by
        rw [← List.count_eq_zero]
        omega
      have hSame : listElements (m.read value) = (m.read value).splitOn (ch ',') := by
        rw [listElements, splitOn_outside hOutside, map_label]
      obtain ⟨-, hNoRoom⟩ | ⟨vs, hTexts, -, hIs, hEntries⟩ := hResult
      · rw [hSame] at hFits
        exact absurd hFits (Nat.not_le_of_lt hNoRoom)
      · have hLength := congrArg List.length hTexts
        rw [List.length_map, List.length_map, ← hSame] at hLength
        rw [hIs, hLength, hLine]
        refine ⟨rfl, fun i e hAt => ?_⟩
        have hText := congrArg (·[i]?) hTexts
        rw [← hSame, List.getElem?_map, List.getElem?_map, hAt, Option.map_some] at hText
        obtain ⟨v, hValue, hRead⟩ := Option.map_eq_some_iff.mp hText
        have hEntry := hEntries.get hValue
        exact ⟨congrArg m.read hEntry.name, (congrArg m.read hEntry.value).trans hRead,
          hEntry.onwire_hf_type, hEntry.hf_type⟩
    · intro hNoRoom
      obtain ⟨hNone, -⟩ | ⟨vs, -, hFits, -⟩ := hResult
      · exact hNone
      · rw [hElements] at hNoRoom
        simp only [sizeofHdr] at *
        omega

/-- A table with one line in it. -/
def oneLine (line : String) : HdrTab where
  entry _ :=
    { full := Str.lit (bytes line), name := Str.null, value := Str.null, onwire_hf_type := .generic
      hf_type := .generic }

/-- Two contacts, the first with a quoted name. -/
theorem splitsList_contacts : SplitsList FastParser.plainShift (fun _ => .zero)
    (oneLine "m: \"a\" <sip:b>, <sip:c>") 0 (2 * sizeofHdr) :=
  (splitsList_iff (by decide +kernel) (by decide +kernel) (by decide)).mpr (Or.inl (by
    rw [CommaInside]
    decide +kernel))

/-- A comma in a quoted name makes two entries of one contact. -/
theorem not_splitsList_quoted : ¬ ∀ (T : Shift) (m : Mem) (tab : HdrTab) (shp ehp : Nat),
    ch ':' ∈ tab.line m shp →
    (hdrDb (hdrDbLookup T (hdrName (tab.line m shp)))).csl_allowed = true → shp + sizeofHdr ≤ ehp →
    SplitsList T m tab shp ehp := by
  intro hAll
  have hSplits := hAll FastParser.plainShift (fun _ => .zero) (oneLine "Contact: \"a,b\" <sip:c>") 0
    (2 * sizeofHdr) (by decide +kernel) (by decide +kernel) (by decide)
  obtain ⟨hOne, -⟩ := hSplits.fits (by decide +kernel)
  exact absurd hOne (by decide +kernel)

end ListHdr

end Microsippy
