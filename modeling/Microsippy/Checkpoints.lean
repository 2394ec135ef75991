import Microsippy.Lib.Defined
import Microsippy.HdrCaps
import Microsippy.WorldMoves

/-! # Checkpoints

A heap is rolled back to its last checkpoint, which has to lie on it. Nothing that is put on a heap or
taken off it again loses that.
-/

namespace Microsippy

set_option autoImplicit false

namespace Heap

/-- The same checkpoints, and the last of them still on the heap. -/
structure Marked (hp hp' : Heap) : Prop where
  ncheckpoints : hp'.ncheckpoints = hp.ncheckpoints
  checkpoints : hp'.checkpoints = hp.checkpoints
  le : hp.base ≤ hp.alen → hp.base ≤ hp'.alen

theorem base_congr {hp hp' : Heap} (h : hp'.checkpoints = hp.checkpoints) : hp'.base = hp.base := by
  rw [base, base, h]

instance : IsPreorder Heap Marked where
  refl _ := ⟨rfl, rfl, id⟩
  trans _ _ _ h h' := by
    refine ⟨h'.ncheckpoints.trans h.ncheckpoints, h'.checkpoints.trans h.checkpoints, fun hLe => ?_⟩
    have hSame := base_congr h.checkpoints
    exact hSame ▸ h'.le (hSame.symm ▸ h.le hLe)

theorem marked_of_le {hp hp' : Heap} (hRoom : hp'.ncheckpoints = hp.ncheckpoints)
    (hMarks : hp'.checkpoints = hp.checkpoints) (hLe : hp.alen ≤ hp'.alen) : hp.Marked hp' :=
  ⟨hRoom, hMarks, fun h => Nat.le_trans h hLe⟩

theorem marked_reserve (len : Nat) (align_start : Bool) : Op.Keeps Marked (reserve len align_start) := by
  intro hp r hp' hRun
  have hGrows := keeps_reserve len align_start hp r hp' hRun
  rw [run_reserve] at hRun
  generalize (if align_start then alignedSize hp.alen else hp.alen) = off at hRun
  simp only at hRun
  split at hRun
  all_goals
    obtain ⟨-, rfl⟩ := Prod.mk.inj (Option.some.inj hRun)
    exact marked_of_le rfl rfl hGrows.le

theorem marked_alloc (len : Nat) : Op.Keeps Marked (alloc len) := marked_reserve _ _

theorem marked_first (f : Heap → Arena) :
    Op.Keeps Marked (Op.modify fun hp => { hp with first := f hp } : HeapM Unit) :=
  .modify fun _ => marked_of_le rfl rfl (Nat.le_refl _)

theorem marked_append (m : Mem) (src : Str) : Op.Keeps Marked (append m src) :=
  .ite (fun _ => .pure _) fun _ => .bind (marked_reserve _ _) fun _ =>
    .bind (marked_first _) fun _ => .bind .get fun _ => .pure _

theorem marked_build (m : Mem) (cb : List Chunk) : Op.Keeps Marked (build m cb) :=
  .bind .get fun _ => .bind (.require _ _) fun _ => .bind (marked_first _) fun _ =>
    .bind (.orElse _ _) fun _ => .bind (marked_reserve _ _) fun _ => .bind .get fun _ => .pure _

theorem marked_sprintf (text : Bytes) : Op.Keeps Marked (sprintf text) :=
  .bind .get fun _ => .bind (.require _ _) fun _ => .bind (marked_first _) fun _ =>
    .bind (.require _ _) fun _ => .bind (marked_reserve _ _) fun _ => .bind .get fun _ => .pure _

theorem marked_aextend (nlen start : Nat) : Op.Keeps Marked (aextend nlen start) :=
  .bind .get fun _ => .bind (.require _ _) fun _ =>
    .modify fun _ => marked_of_le rfl rfl (Nat.le_add_right _ _)

theorem marked_appendAll (m : Mem) (srcs : List Str) : Op.Keeps Marked (appendAll m srcs) := by
  induction srcs with
  | nil => exact .pure _
  | cons s srcs ih => exact .bind (marked_append m s) fun _ => .bind ih fun _ => .pure _

theorem marked_copyRouteSet (m : Mem) (srcp : List Str) : Op.Keeps Marked (copyRouteSet m srcp) := by
  cases srcp with
  | nil => exact .pure _
  | cons s srcs => exact .bind (marked_alloc _) fun _ => marked_appendAll m _

theorem marked_extendPairs (size : Nat → Nat) (start n : Nat) (pps : List TvPair) :
    Op.Keeps Marked (extendPairs size start n pps) := by
  induction pps generalizing n with
  | nil => exact .pure ()
  | cons pp pps ih => exact .bind (marked_aextend _ _) fun _ => ih (n + 1)

/-- A URI that does not parse is taken off the heap again, down to where it began. -/
theorem marked_uriParse (m : Mem) (s : Str) : Op.Keeps Marked (Uri.parse m s) := by
  intro hp r hp' hRun
  rw [Uri.parse, allocCnt, Op.run_bind] at hRun
  cases hAlloc : (alloc (Uri.sizeof 0)).run hp with
  | none =>
    rw [hAlloc] at hRun
    cases hRun
  | some out =>
    obtain ⟨r₁, hp₁⟩ := out
    have hFirst := marked_alloc _ _ _ _ hAlloc
    rw [hAlloc] at hRun
    cases r₁ with
    | error e =>
      obtain ⟨-, rfl⟩ := Prod.mk.inj (Option.some.inj hRun)
      exact hFirst
    | ok start =>
      have hStart : hp.alen ≤ start := by
        obtain ⟨rfl, -, -⟩ := reserve_ok.mp hAlloc
        exact le_alignedSize _
      simp only [Op.andThen_ok, Op.run_bind, Op.run_get] at hRun
      have hParts : Op.Keeps Marked (do
          let up ← Op.orElse (Uri.parseParts (hp₁.mem m) s) ()
          extendPairs Uri.sizeof start 0 up.parameters
          extendPairs Uri.sizeof start up.parameters.length up.headers
          return up : HeapM Uri) :=
        .bind (.orElse _ _) fun _ => .bind (marked_extendPairs _ _ _ _) fun _ =>
          .bind (marked_extendPairs _ _ _ _) fun _ => .pure _
      cases r with
      | ok up => exact IsTrans.trans _ _ _ hFirst (hParts _ _ _ (Op.cleanup_ok.mp hRun))
      | error e =>
        obtain ⟨hp₂, hInner, rfl⟩ := Op.cleanup_error.mp hRun
        have hBoth := IsTrans.trans _ _ _ hFirst (hParts _ _ _ hInner)
        exact ⟨hBoth.ncheckpoints, hBoth.checkpoints, fun hLe => Nat.le_trans hLe hStart⟩

theorem marked_rollback (cp : Nat) : Op.Keeps Marked (rollback cp) := by
  intro hp r hp' hRun
  have hBelow := below_rollback cp hp r hp' hRun
  have hRoom : Op.Keeps (fun hp hp' : Heap => hp'.ncheckpoints = hp.ncheckpoints) (rollback cp) := by
    have : IsPreorder Heap fun hp hp' : Heap => hp'.ncheckpoints = hp.ncheckpoints :=
      { refl := fun _ => rfl, trans := fun _ _ _ h h' => Eq.trans h' h }
    exact .bind .get fun _ => .bind (.assert _) fun _ => .bind (.assert _) fun _ =>
      .bind (.assert _) fun _ => .modify fun _ => rfl
  refine ⟨hRoom hp r hp' hRun, hBelow.checkpoints, hBelow.le⟩

/-- The last checkpoint is on the heap. -/
theorem rollback_defined {cp : Nat} {hp : Heap} (hLast : hp.checkpoints.length = cp + 1)
    (hLe : hp.base ≤ hp.alen) : (rollback cp).run hp ≠ none := by
  have hOn : hp.checkpoints.getD cp 0 ≤ hp.alen := by
    rwa [base, List.getLast?_eq_getElem?, hLast, Nat.add_sub_cancel, ← List.getD_eq_getElem?_getD] at hLe
  have hSome : 0 < hp.checkpoints.length := by omega
  have hTop : cp = hp.checkpoints.length - 1 := by omega
  simp only [rollback, Op.run_bind, Op.run_get, Op.andThen_ok, Op.run_assert, if_pos hSome, if_pos hTop,
    if_pos hOn]
  exact Option.some_ne_none _

end Heap

/-! ## Slots -/

/-- The same transaction in the same place. -/
structure Ctl.Steady (c c' : Ctl) : Prop where
  active : c'.active = c.active
  role : c'.role = c.role
  parent : c'.parent_index = c.parent_index
  child : c'.child_index = c.child_index
  invite : c'.invite.isSome = c.invite.isSome

instance : IsPreorder Ctl Ctl.Steady where
  refl _ := ⟨rfl, rfl, rfl, rfl, rfl⟩
  trans _ _ _ h h' := ⟨h'.active.trans h.active, h'.role.trans h.role, h'.parent.trans h.parent,
    h'.child.trans h.child, h'.invite.trans h.invite⟩

/-- The same with the same method. -/
structure Ctl.Stays (c c' : Ctl) : Prop extends Ctl.Steady c c' where
  method : c'.method_type = c.method_type

instance : IsPreorder Ctl Ctl.Stays where
  refl _ := ⟨Std.Refl.refl _, rfl⟩
  trans _ _ _ h h' := ⟨IsTrans.trans _ _ _ h.toSteady h'.toSteady, h'.method.trans h.method⟩

/-- A request of the same method, with a URI if it had one. -/
structure Txi.SameRequest (tp tp' : Txi) : Prop where
  method : tp'.method_type = tp.method_type ∨ tp'.method_type = tp.cache.method_type
  cached : tp'.cache.method_type = tp.cache.method_type
  uri : tp'.cache.uac.request_uri.isSome = tp.cache.uac.request_uri.isSome

theorem Txi.SameRequest.trans {tp tp' tp'' : Txi} (h : tp.SameRequest tp') (h' : tp'.SameRequest tp'') :
    tp.SameRequest tp'' := by
  refine ⟨?_, h'.cached.trans h.cached, h'.uri.trans h.uri⟩
  rcases h'.method with hSame | hCached
  · rw [hSame]
    exact h.method
  · exact Or.inr (hCached.trans h.cached)

/-- Work on a slot, which keeps its request unless it is being filled. -/
structure Txi.Steady (filling : Prop) (tp tp' : Txi) : Prop where
  ctl : tp.toCtl.Steady tp'.toCtl
  timers : tp'.timers = tp.timers
  checkpoint : tp'.checkpoint = tp.checkpoint
  heap : tp.scratch.Marked tp'.scratch
  request : filling ∨ tp.SameRequest tp'

instance (filling : Prop) : IsPreorder Txi (Txi.Steady filling) where
  refl _ := ⟨Std.Refl.refl _, rfl, rfl, Std.Refl.refl _, Or.inr ⟨Or.inl rfl, rfl, rfl⟩⟩
  trans _ _ _ h h' := by
    refine ⟨IsTrans.trans _ _ _ h.ctl h'.ctl, h'.timers.trans h.timers, h'.checkpoint.trans h.checkpoint,
      IsTrans.trans _ _ _ h.heap h'.heap, ?_⟩
    rcases h.request with hFilling | hFirst
    · exact Or.inl hFilling
    · exact h'.request.imp_right hFirst.trans

variable {filling : Prop}

theorem Txi.steady_ctl {tp : Txi} {c : Ctl} (h : tp.toCtl.Stays c) :
    tp.Steady filling { tp with toCtl := c } :=
  ⟨h.toSteady, rfl, rfl, Std.Refl.refl _, Or.inr ⟨Or.inl h.method, rfl, rfl⟩⟩

theorem steady_onScratch {α : Type} {x : HeapM α} (hx : Op.Keeps Heap.Marked x) (e : TmError) :
    Op.Keeps (Txi.Steady filling) (onScratch e x) := by
  refine .failWith (fun tp r tp' hRun => ?_) e
  obtain ⟨hp, hPart, rfl⟩ := Op.zoom_some.mp hRun
  exact ⟨Std.Refl.refl _, rfl, rfl, hx _ _ _ hPart, Or.inr ⟨Or.inl rfl, rfl, rfl⟩⟩

theorem steady_modCache {f : Cache → Cache} (hMethod : ∀ c, (f c).method_type = c.method_type)
    (hUri : ∀ c, (f c).uac.request_uri.isSome = c.uac.request_uri.isSome) :
    Op.Keeps (Txi.Steady filling) (modCache f) :=
  .modify fun tp => ⟨Std.Refl.refl _, rfl, rfl, Std.Refl.refl _,
    Or.inr ⟨Or.inl rfl, hMethod tp.cache, hUri tp.cache⟩⟩

/-- Whatever a slot that is being filled keeps of its request. -/
theorem filling_modCache (f : Cache → Cache) : Op.Keeps (Txi.Steady True) (modCache f) :=
  .modify fun _ => ⟨Std.Refl.refl _, rfl, rfl, Std.Refl.refl _, Or.inl trivial⟩

theorem steady_modUacCache {f : UacCache → UacCache}
    (hUri : ∀ u, (f u).request_uri.isSome = u.request_uri.isSome) :
    Op.Keeps (Txi.Steady filling) (modUacCache f) := steady_modCache (fun _ => rfl) fun c => hUri c.uac

theorem steady_modUasCache (f : UasCache → UasCache) : Op.Keeps (Txi.Steady filling) (modUasCache f) :=
  steady_modCache (fun _ => rfl) fun _ => rfl

theorem steady_modCtl {f : Ctl → Ctl} (h : ∀ c : Ctl, c.Stays (f c)) :
    Op.Keeps (Txi.Steady filling) (modCtl f) :=
  .modify fun tp => Txi.steady_ctl (h tp.toCtl)

theorem steady_setCtl {f : TimerPolicy → Ctl → Option Ctl}
    (h : ∀ p (c c' : Ctl), f p c = some c' → c.Stays c') :
    Op.Keeps (Txi.Steady filling) (setCtl f) := by
  intro tp r tp' hRun
  obtain ⟨c, hc, -, rfl⟩ := setCtl_some hRun
  exact Txi.steady_ctl (h _ _ _ hc)

theorem steady_text (m : Mem) (s : Str) : Op.Keeps (Txi.Steady filling) (text m s) :=
  .bind .get fun _ => .pure _

theorem steady_copyUri (m : Mem) (srcp : Str) : Op.Keeps (Txi.Steady filling) (copyUri m srcp) :=
  steady_onScratch (Heap.marked_append _ _) _

theorem steady_copyTargetAddr (m : Mem) (srcp : Addr) :
    Op.Keeps (Txi.Steady filling) (copyTargetAddr m srcp) :=
  .bind (.ite (fun _ => .pure _) fun _ => steady_onScratch (Heap.marked_append _ _) _) fun _ => .pure _

theorem steady_requestUriMaterialize (tm : Tm) (targetp : RequestTarget) :
    Op.Keeps (Txi.Steady filling) (requestUriMaterialize tm targetp) :=
  .bind (.assert _) fun _ => .ite (fun _ => steady_onScratch (Heap.marked_append _ _) _) fun _ =>
    .bind (.demand _) fun _ => .bind (.require _ _) fun _ => .bind (steady_text _ _) fun _ =>
      steady_onScratch (Heap.marked_sprintf _) _

theorem steady_formatLocalUri (m : Mem) (localp : Addr) (userp : Str) (include_port : Bool) :
    Op.Keeps (Txi.Steady filling) (formatLocalUri m localp userp include_port) := by
  refine .bind (steady_text _ _) fun _ => .bind (steady_text _ _) fun _ => ?_
  cases localp.af with
  | INET => exact steady_onScratch (Heap.marked_sprintf _) _
  | INET6 => exact steady_onScratch (Heap.marked_sprintf _) _
  | unspec => exact .fail _

theorem steady_initUacPartiesByUsername (m : Mem) (localp : Addr) (partiesp : RequestParties) :
    Op.Keeps (Txi.Steady filling) (initUacPartiesByUsername m localp partiesp) :=
  .bind (steady_formatLocalUri _ _ _ _) fun _ => .bind (steady_modUacCache fun _ => rfl) fun _ =>
    .bind (steady_formatLocalUri _ _ _ _) fun _ => .bind (steady_modUacCache fun _ => rfl) fun _ =>
      .bind (steady_formatLocalUri _ _ _ _) fun _ => steady_modUacCache fun _ => rfl

theorem steady_initUacPartiesByUri (m : Mem) (partiesp : RequestParties) (dialog_tagsp : DialogTags) :
    Op.Keeps (Txi.Steady filling) (initUacPartiesByUri m partiesp dialog_tagsp) :=
  .bind (steady_copyUri _ _) fun _ => .bind (steady_modUacCache fun _ => rfl) fun _ =>
    .bind (steady_copyUri _ _) fun _ => .bind (steady_modUacCache fun _ => rfl) fun _ =>
      .bind (steady_copyUri _ _) fun _ => .bind (steady_modUacCache fun _ => rfl) fun _ =>
        .bind (steady_copyUri _ _) fun _ => .bind (steady_modCache (fun _ => rfl) fun _ => rfl) fun _ =>
          .bind (steady_copyUri _ _) fun _ => steady_modCache (fun _ => rfl) fun _ => rfl

theorem filling_copyParsedUri (m : Mem) (srcp : Option Uri) :
    Op.Keeps (Txi.Steady True) (copyParsedUri m srcp) :=
  .bind (.demand _) fun _ => .bind (steady_onScratch (Heap.marked_build _ _) _) fun _ =>
    .bind (steady_onScratch (Heap.marked_uriParse _ _) _) fun _ => filling_modCache _

theorem steady_callIdPolicy (policy : IdPolicy) (inp : IdPolicyIn) :
    Op.Keeps (Txi.Steady filling) (callIdPolicy policy inp) := by
  intro tp r tp' hRun
  simp only [callIdPolicy, Op.run_bind, Op.run_get, Op.andThen_ok, Op.run_modify] at hRun
  have hExtends := policy.extends_heap tp.id_calls inp tp.scratch
  have hAnswer : tp.Steady filling { tp with
      scratch := (policy.cb tp.id_calls inp tp.scratch).2, id_calls := tp.id_calls + 1 } :=
    ⟨Std.Refl.refl _, rfl, rfl, Heap.marked_of_le hExtends.ncheckpoints hExtends.checkpoints hExtends.grows,
      Or.inr ⟨Or.inl rfl, rfl, rfl⟩⟩
  exact IsTrans.trans _ _ _ hAnswer (Op.Keeps.orElse _ _ _ _ _ hRun)

theorem steady_prepareDefaultIds (tx_index : Nat) :
    Op.Keeps (Txi.Steady filling) (prepareDefaultIds tx_index) :=
  .bind .get fun _ => .bind (steady_onScratch (Heap.marked_sprintf _) _) fun _ =>
    .bind (steady_onScratch (Heap.marked_sprintf _) _) fun _ => .pure _

theorem steady_prepareInitialCallId (tm : Tm) (tx_index : Nat) :
    Op.Keeps (Txi.Steady filling) (prepareInitialCallId tm tx_index) := by
  refine .bind .get fun _ => .ite (fun _ => .pure _) fun _ => .bind ?_ fun _ =>
    .bind (.require _ _) fun _ => .bind (steady_copyUri _ _) fun _ =>
      steady_modCache (fun _ => rfl) fun _ => rfl
  cases tm.id_policy with
  | none => exact steady_onScratch (Heap.marked_sprintf _) _
  | some policy => exact .bind (steady_callIdPolicy _ _) fun _ => .pure _

theorem steady_generateIds (tm : Tm) (tx_index : Nat) :
    Op.Keeps (Txi.Steady filling) (generateIds tm tx_index) := by
  refine .bind .get fun _ => ?_
  cases tm.id_policy with
  | none => exact steady_prepareDefaultIds _
  | some policy => exact steady_callIdPolicy _ _

theorem steady_identify (m : Mem) (tp : Txi) : tp.Steady filling (tp.identify m) := by
  have hAny : ∀ id : TmId, tp.Steady filling { tp with id, method_type := tp.cache.method_type } :=
    fun _ => ⟨⟨rfl, rfl, rfl, rfl, rfl⟩, rfl, rfl, Std.Refl.refl _, Or.inr ⟨Or.inr rfl, rfl, rfl⟩⟩
  exact hAny _

theorem steady_prepareIds (tm : Tm) (tx_index : Nat) :
    Op.Keeps (Txi.Steady filling) (prepareIds tm tx_index) :=
  .bind (steady_generateIds _ _) fun _ => .bind .get fun _ => .bind (.require _ _) fun _ =>
    .bind (steady_modCache (fun _ => rfl) fun _ => rfl) fun _ => .modify fun _ => steady_identify _ _

theorem steady_rollbackTo (cp : Option Nat) : Op.Keeps (Txi.Steady filling) (rollbackTo cp) := by
  cases cp with
  | none => exact .pure _
  | some cp => exact steady_onScratch (Heap.marked_rollback cp) _

theorem steady_printDec (n : Nat) : Op.Keeps (Txi.Steady filling) (printDec n) :=
  steady_onScratch (Heap.marked_sprintf _) _

theorem steady_buildRequest (tm : Tm) (tx_index : Nat) (bp : BuildRequestParams) :
    Op.Keeps (Txi.Steady filling) (buildRequest tm tx_index bp) :=
  .bind .get fun _ => .bind (.assert _) fun _ => .bind (steady_rollbackTo _) fun _ =>
    .bind (steady_prepareIds _ _) fun _ => .bind .get fun _ =>
      .bind (.ite (fun _ => steady_printDec _) fun _ => .pure _) fun _ =>
        .bind (.ite (fun _ => .bind (steady_printDec _) fun _ => .pure _) fun _ => .pure _) fun _ =>
          .bind (.require _ _) fun _ => .bind (.ite (fun _ => steady_printDec _) fun _ => .pure _) fun _ =>
            .bind (.orElse _ _) fun _ => .bind (.demand _) fun _ =>
              .bind (steady_onScratch (Heap.marked_build _ _) _) fun _ => .modify fun _ =>
                ⟨Std.Refl.refl _, rfl, rfl, Std.Refl.refl _, Or.inr ⟨Or.inl rfl, rfl, rfl⟩⟩

theorem steady_releaseOutbound : Op.Keeps (Txi.Steady filling) releaseOutbound :=
  .bind .get fun _ => .bind (steady_rollbackTo _) fun _ => .modify fun _ =>
    ⟨⟨rfl, rfl, rfl, rfl, rfl⟩, rfl, rfl, Std.Refl.refl _, Or.inr ⟨Or.inl rfl, rfl, rfl⟩⟩

end Microsippy
