import CubeCL.IR.ScopeRun
import Mathlib.Data.List.Forall2

/-!
# `CubeCL.IR.Process`: what `Scope::process` builds

`Scope.processing` follows the loops of `process`: folds that push onto the end of a list.
This module states what they build.

* `foldl_push`, `foldlM_push` and their variants: a pushing fold appends the mapped list.
* `Backfilled` relates a registered operation to what the backfill loop makes of it: the
  same operation, or an `IndexOffsetGlobalWithLayout` procedure given the layout
  reference. `forall₂_backfilled` lifts it over the loop.
* `processing_eq`: the whole of `processing` as appends of maps.
* `process_layout`: the operation list `process` hands to `optimize` is the early return,
  one read per pending read, one `Assign` per scalar read, the registered operations (up
  to the backfill) and one `WriteGlobal` per write, in that order; the variables are the
  declared locals, matrices, slices and scalar locals; the scope is left drained, and a
  second `process` builds nothing.
* `process_undeclared_not_add` shows that `undeclared` does not grow by `locals.len()`
  once a scope holds `2 ^ 16` declared locals: the `u16` cast of the length is `0`.
-/

set_option autoImplicit false

namespace CubeCL.IR

/-- A fold that pushes each element onto the end appends the list. -/
theorem foldl_push {α : Type} (l init : List α) : l.foldl (· ++ [·]) init = init ++ l := by
  induction l generalizing init with
  | nil => simp
  | cons a l ih => simp [ih]

/-- A fold that pushes the image of each element appends the mapped list. -/
theorem foldl_push_map {α β : Type} (f : α → β) (l : List α) (init : List β) :
    l.foldl (fun acc a => acc ++ [f a]) init = init ++ l.map f := by
  induction l generalizing init with
  | nil => simp
  | cons a l ih => simp [ih]

/-- The fold over two lists of the scalar-read loop appends both mapped lists. -/
theorem foldl_push_pair {α β γ : Type} (f : α → β) (g : α → γ) (l : List α)
    (init : List β × List γ) :
    l.foldl (fun acc a => (acc.1 ++ [f a], acc.2 ++ [g a])) init
      = (init.1 ++ l.map f, init.2 ++ l.map g) := by
  induction l generalizing init with
  | nil => simp
  | cons a l ih => simp [ih]

/-- A fallible pushing fold appends the result of `mapM`, and fails when it fails. -/
theorem foldlM_push {α β : Type} (f : α → Option β) (l : List α) (init : List β) :
    l.foldlM (fun acc a => (f a).map (acc ++ [·])) init = (l.mapM f).map (init ++ ·) := by
  induction l generalizing init with
  | nil => simp only [List.foldlM_nil, List.mapM_nil, pure, Option.map_some', List.append_nil]
  | cons a l ih =>
      rcases h : f a with _ | b
      · simp only [List.foldlM_cons, List.mapM_cons, h]; rfl
      · simp only [List.foldlM_cons, List.mapM_cons, h, ih]
        rcases l.mapM f with _ | bs <;> simp [Option.map]

/-- `mapM` in `Option` succeeds with `bs` when each element maps to its partner in `bs`. -/
theorem mapM_some_forall₂ {α β : Type} {f : α → Option β} :
    ∀ {l : List α} {bs : List β}, l.mapM f = some bs →
      List.Forall₂ (fun a b => f a = some b) l bs
  | [], bs, h => by cases h; exact .nil
  | a :: l, bs, h => by
      rw [List.mapM_cons] at h
      rcases hb : f a with _ | b
      · rw [hb] at h; cases h
      · rcases hbs : l.mapM f with _ | bs'
        · rw [hb, hbs] at h; cases h
        · rw [hb, hbs] at h
          cases h
          exact .cons hb (mapM_some_forall₂ hbs)

/-- What the backfill loop of `process` makes of one registered operation: the operation
itself, or, for an `IndexOffsetGlobalWithLayout` procedure, the same procedure with the
layout reference as its layout. -/
def Backfilled (layoutRef : Option Variable) (a b : Operation) : Prop :=
  b = a ∨ ∃ proc layout, a = .procedure (.indexOffsetGlobalWithLayout proc) ∧
    layoutRef = some layout ∧ b = .procedure (.indexOffsetGlobalWithLayout { proc with layout })

namespace Backfilled

variable {layoutRef : Option Variable}

/-- An operation left as it is counts as backfilled. -/
theorem refl (a : Operation) : Backfilled layoutRef a a := Or.inl rfl

/-- Backfilling twice is backfilling once: the layout is set to the same reference. -/
theorem trans {a b c : Operation} (hab : Backfilled layoutRef a b)
    (hbc : Backfilled layoutRef b c) : Backfilled layoutRef a c := by
  rcases hab with rfl | ⟨proc, layout, rfl, hl, rfl⟩
  · exact hbc
  · rcases hbc with rfl | ⟨proc', layout', hb, hl', rfl⟩
    · exact Or.inr ⟨proc, layout, rfl, hl, rfl⟩
    · simp only [Operation.procedure.injEq, Procedure.indexOffsetGlobalWithLayout.injEq] at hb
      subst hb
      obtain rfl : layout = layout' := Option.some_injective _ (hl.symm.trans hl')
      exact Or.inr ⟨proc, layout, rfl, hl, rfl⟩

end Backfilled

/-- Pointwise relations compose along a transitive relation. -/
theorem forall₂_trans {α : Type} {R : α → α → Prop} (hR : ∀ a b c, R a b → R b c → R a c) :
    ∀ {l₁ l₂ l₃ : List α}, List.Forall₂ R l₁ l₂ → List.Forall₂ R l₂ l₃ → List.Forall₂ R l₁ l₃
  | _, _, _, .nil, .nil => .nil
  | _, _, _, .cons h₁ t₁, .cons h₂ t₂ => .cons (hR _ _ _ h₁ h₂) (forall₂_trans hR t₁ t₂)

/-- Replacing one element by a related one relates the lists pointwise. -/
theorem forall₂_set {α : Type} {R : α → α → Prop} (hR : ∀ a, R a a) :
    ∀ (l : List α) (i : Nat) (x : α), (∀ h : i < l.length, R l[i] x) →
      List.Forall₂ R l (l.set i x)
  | [], _, _, _ => List.Forall₂.nil
  | _ :: _, 0, _, h => .cons (h (Nat.zero_lt_succ _)) (List.forall₂_same.mpr fun a _ => hR a)
  | a :: l, i + 1, x, h =>
      List.Forall₂.cons (hR a) (forall₂_set hR l i x fun hi => h (Nat.succ_lt_succ hi))

namespace Scope

/-- One turn of the backfill loop relates the operations pointwise by `Backfilled`. -/
theorem forall₂_backfillLayout {layoutRef : Option Variable} {ops ops' : List Operation}
    {index : Nat} (h : backfillLayout layoutRef ops index = some ops') :
    List.Forall₂ (Backfilled layoutRef) ops ops' := by
  unfold backfillLayout at h
  split at h
  next proc hget =>
    obtain ⟨layout, hl, rfl⟩ := Option.map_eq_some'.mp h
    refine forall₂_set Backfilled.refl _ _ _ fun hi => Or.inr ⟨proc, layout, ?_, hl, rfl⟩
    simpa [List.getElem?_eq_getElem hi] using hget
  · cases h
    exact List.forall₂_same.mpr fun a _ => Backfilled.refl a

/-- The backfill loop relates the registered operations pointwise by `Backfilled`: none is
lost, duplicated or moved. -/
theorem forall₂_backfilled {layoutRef : Option Variable} :
    ∀ (positions : List Nat) {ops ops' : List Operation},
      positions.foldlM (backfillLayout layoutRef) ops = some ops' →
        List.Forall₂ (Backfilled layoutRef) ops ops'
  | [], ops, ops', h => by cases h; exact List.forall₂_same.mpr fun a _ => Backfilled.refl a
  | index :: positions, ops, ops', h => by
      simp only [List.foldlM_cons, Option.bind_eq_bind, Option.bind_eq_some] at h
      obtain ⟨mid, hmid, hrest⟩ := h
      exact forall₂_trans (fun a b c (h₁ : Backfilled layoutRef a b)
        (h₂ : Backfilled layoutRef b c) => h₁.trans h₂) (forall₂_backfillLayout hmid)
        (forall₂_backfilled positions hrest)

/-- `processing` as appends of maps. It fails exactly when the backfill loop or a read
needs the layout reference and there is none. -/
theorem processing_eq (s : Scope) :
    s.processing =
      (s.indexOffsetWithOutputLayoutPosition.foldlM (backfillLayout s.layoutRef)
          s.operations).bind fun registered =>
        (s.readsGlobal.mapM (readOperation s.layoutRef)).map fun reads =>
          (⟨s.locals ++ s.matrices ++ s.slices ++ s.readsScalar.map Prod.fst,
            s.earlyReturn ++ reads ++ s.readsScalar.map scalarReadOperation ++ registered ++
              s.writesGlobal.map writeOperation⟩, s.drained) := by
  simp only [processing, foldl_push, foldlM_push, foldl_push_pair, foldl_push_map]
  rcases s.indexOffsetWithOutputLayoutPosition.foldlM (backfillLayout s.layoutRef)
    s.operations with _ | registered
  · rfl
  · rcases s.readsGlobal.mapM (readOperation s.layoutRef) with _ | reads
    · rfl
    · simp [List.append_assoc]

/-- `process` always leaves the drained scope. -/
theorem processing_drained_of_eq_some {s s' : Scope} {p : ScopeProcessing}
    (h : s.processing = some (p, s')) : s' = s.drained := by
  rw [processing_eq] at h
  obtain ⟨_, _, h⟩ := Option.bind_eq_some.mp h
  obtain ⟨_, _, h⟩ := Option.map_eq_some'.mp h
  cases h
  rfl

/-- The inversion of a `process` call: it hands back the optimized processing, and leaves
the drained scope. -/
theorem apply_process_eq_some {optimize : ScopeProcessing → ScopeProcessing} {s s' : Scope}
    {r : ScopeResult} (happ : ScopeOp.process.apply optimize s = some (r, s')) :
    ∃ p, s.processing = some (p, s') ∧ r = .processing (optimize p) ∧ s' = s.drained := by
  simp only [ScopeOp.apply, Scope.process, Option.map_map, Option.map_eq_some',
    Function.comp_def, Prod.mk.injEq] at happ
  obtain ⟨⟨p, s''⟩, hp, rfl, rfl⟩ := happ
  exact ⟨p, hp, rfl, processing_drained_of_eq_some hp⟩

/-- The guard of a root scope with a pending write: the first write's output and
position. -/
theorem earlyReturn_eq (s : Scope) :
    s.earlyReturn = if s.depth = 0 then
      (s.writesGlobal.head?.map fun w => .procedure (.earlyReturn ⟨w.2.1, w.2.2⟩)).toList
      else [] := by
  unfold earlyReturn
  rcases s.writesGlobal.head? with _ | ⟨_, global, position⟩ <;> split_ifs <;> rfl

/-- A drained scope has nothing left to process: `processing` builds empty lists and
leaves it as it is. -/
theorem processing_drained (s : Scope) : s.drained.processing = some (⟨[], []⟩, s.drained) := by
  have hu : asU16 (asU16 (s.undeclared + asU16 s.locals.length) + asU16 0)
      = asU16 (s.undeclared + asU16 s.locals.length) := by
    simp only [asU16, Nat.zero_mod, Nat.add_zero, Nat.mod_mod]
  simp only [processing_eq]
  simp only [drained, earlyReturn, List.foldlM_nil, List.mapM_nil, List.map_nil,
    List.append_nil, List.head?_nil, List.length_nil]
  simp [hu]

/-- What one `process` call builds and leaves, up to its final `optimize()`.

The operation list is, in order: the `EarlyReturn` guard on the first pending write when
the scope is a root; one read procedure per pending global read, built from it with its
current strategy; one `Assign` from the global scalar per pending scalar read; the
registered operations, each kept or backfilled with the layout reference; one
`WriteGlobal` per pending write. The variables are the declared locals, the matrices,
the slices and the scalar-read locals. The scope is left with every deferred list and
its operations empty, the rest unchanged except `undeclared`, which grows by the number of
declared locals in `u16` arithmetic. A second `process` then builds empty lists. -/
theorem process_builds (s : Scope) (p : ScopeProcessing) (s' : Scope)
    (h : s.processing = some (p, s')) :
    (∃ reads registered,
      p.operations = s.earlyReturn ++ reads ++ s.readsScalar.map scalarReadOperation ++
        registered ++ s.writesGlobal.map writeOperation ∧
      List.Forall₂ (fun read op => readOperation s.layoutRef read = some op)
        s.readsGlobal reads ∧
      List.Forall₂ (Backfilled s.layoutRef) s.operations registered) ∧
    s.earlyReturn = (if s.depth = 0 then
      (s.writesGlobal.head?.map fun w => .procedure (.earlyReturn ⟨w.2.1, w.2.2⟩)).toList
      else []) ∧
    p.variables = s.locals ++ s.matrices ++ s.slices ++ s.readsScalar.map Prod.fst ∧
    (s'.operations = [] ∧ s'.locals = [] ∧ s'.matrices = [] ∧ s'.slices = [] ∧
      s'.readsGlobal = [] ∧ s'.readsScalar = [] ∧ s'.writesGlobal = [] ∧
      s'.indexOffsetWithOutputLayoutPosition = []) ∧
    (s'.depth = s.depth ∧ s'.layoutRef = s.layoutRef ∧
      s'.sharedMemories = s.sharedMemories ∧ s'.localArrays = s.localArrays) ∧
    s'.undeclared = (s.undeclared + s.locals.length) % 2 ^ 16 ∧
    s'.processing = some (⟨[], []⟩, s') := by
  rw [processing_eq] at h
  obtain ⟨registered, hreg, h⟩ := Option.bind_eq_some.mp h
  obtain ⟨reads, hreads, h⟩ := Option.map_eq_some'.mp h
  cases h
  refine ⟨⟨reads, registered, rfl, ?_, forall₂_backfilled _ hreg⟩, earlyReturn_eq s, rfl,
    ⟨rfl, rfl, rfl, rfl, rfl, rfl, rfl, rfl⟩, ⟨rfl, rfl, rfl, rfl⟩, ?_, processing_drained s⟩
  · exact mapM_some_forall₂ hreads
  · simp [drained, asU16, Nat.add_mod_mod]

/-- A root with one pending write processes, and processing what it leaves builds
nothing. -/
theorem process_builds_pending_write :
    ∃ p s', (root.writeGlobal .absolutePos (.globalOutputArray 0 (Item.new .uint))
        .absolutePos).processing = some (p, s') ∧ s'.processing = some (⟨[], []⟩, s') := by
  obtain ⟨p, s', h⟩ : ∃ p s', (root.writeGlobal .absolutePos
      (.globalOutputArray 0 (Item.new .uint)) .absolutePos).processing = some (p, s') :=
    ⟨_, _, rfl⟩
  exact ⟨p, s', h, (process_builds _ p s' h).2.2.2.2.2.2⟩

/-- `k` calls of `create_local` append `k` locals and change nothing else. -/
theorem run_createLocal_replicate (optimize : ScopeProcessing → ScopeProcessing) (item : Item) :
    ∀ (k : Nat) (s : Scope), ∃ rs vs,
      run optimize s (List.replicate k (.createLocal item)) =
        some (rs, { s with locals := s.locals ++ vs }) ∧ vs.length = k
  | 0, s => ⟨[], [], by simp [run], rfl⟩
  | k + 1, s => by
      obtain ⟨rs, vs, h, hlen⟩ := run_createLocal_replicate optimize item k (s.createLocal item).2
      refine ⟨.var (s.createLocal item).1 :: rs, (s.createLocal item).1 :: vs, ?_, by simp [hlen]⟩
      simp only [createLocal] at h
      rw [List.replicate_succ, run_cons]
      simp [ScopeOp.apply, h, createLocal]

/-- `process` does not grow `undeclared` by the number of declared locals on every reachable
scope: after `2 ^ 16` calls of `create_local` from a root, `locals.len() as u16` is `0`,
and `undeclared` stays `0`. -/
theorem process_undeclared_not_add :
    ¬ ∀ (ops : List ScopeOp) (rs : List ScopeResult) (s : Scope) (p : ScopeProcessing)
        (s' : Scope), run id root ops = some (rs, s) → s.processing = some (p, s') →
        s'.undeclared = s.undeclared + s.locals.length := by
  intro hall
  obtain ⟨rs, vs, hrun, hlen⟩ :=
    run_createLocal_replicate id (Item.new .uint) (2 ^ 16) root
  obtain ⟨p, hp⟩ : ∃ p, processing { root with locals := root.locals ++ vs }
      = some (p, drained { root with locals := root.locals ++ vs }) := by
    rw [processing_eq]; exact ⟨_, rfl⟩
  have hprocess := hall _ _ _ _ _ hrun hp
  simp [drained, asU16, hlen, root] at hprocess

end Scope

end CubeCL.IR
