import CubeCL.IR.Process

/-!
# `CubeCL.IR.LocalIds`: the ids of a scope's locals

`Scope::new_local_index` is `locals.len() as u16 + undeclared`. A declared local grows
`locals`, an undeclared one grows `undeclared`, and `process` moves `locals.len()` into
`undeclared` as it empties `locals`. So the sum is the number of locals created so far,
and each new local takes it as its id.

* `LocalsInv` is the invariant: the sum is `n`, and the ids of the pending declared locals
  increase and stay below `n`. Matrices, slices and scalar reads are not `Local`s.
* `LocalsInv.apply` is the step lemma. A call that creates a local hands out the local
  `n` at the scope's depth and moves to `n + 1`; any other call hands out no local.
* `scope_local_ids_distinct` is the run lemma. From a scope that `root` or `child` made,
  with fewer than `2 ^ 16` locals created, the locals handed out are `0, 1, 2, …` in call
  order, all at the scope's depth, `new_local_index` ends at their number, and no
  `process` result lists two locals with one id.

The bound is needed: the `u16` sum wraps at `2 ^ 16`, and the id after `65535` is `0`
again. `optimize` is not under `src/`; the spec lets it drop dead locals, and the theorem
asks only that it keep a sublist of the variables.
-/

set_option autoImplicit false

namespace CubeCL.IR

/-- `asU16` is the identity below `2 ^ 16`. -/
@[simp] theorem asU16_of_lt {n : Nat} (h : n < 2 ^ 16) : asU16 n = n := Nat.mod_eq_of_lt h

/-- The calls that create a `Local`. -/
def ScopeOp.createsLocal : ScopeOp → Bool
  | .createLocal _ | .createLocalUndeclared _ | .readArray _ _ _ | .zero _
  | .createWithValue _ _ => true
  | _ => false

/-- The id and depth of a `Local` that a call hands out. -/
def ScopeResult.local? : ScopeResult → Option (Nat × Nat)
  | .var (.local id _ depth) => some (id, depth)
  | _ => none

/-- The ids of the `Local`s of a list of variables. -/
def localIds (vs : List Variable) : List Nat := vs.filterMap Variable.localId?

@[simp] theorem localIds_nil : localIds [] = [] := rfl

@[simp] theorem localIds_append (vs ws : List Variable) :
    localIds (vs ++ ws) = localIds vs ++ localIds ws := List.filterMap_append _ _ _

@[simp] theorem localIds_local (id depth : Nat) (item : Item) :
    localIds [.local id item depth] = [id] := rfl

@[simp] theorem localIds_map_vectorize (factor : Nat) (vs : List Variable) :
    localIds (vs.map (Variable.vectorize factor)) = localIds vs := by
  simp [localIds, List.filterMap_map, Function.comp_def]

namespace Scope

/-- The invariant of the local ids, for a scope that has created `n` locals: `n` is
`locals.len() + undeclared`, the pending declared locals are `Local`s with increasing ids
below `n`, and the pending matrices, slices and scalar reads hold no `Local`. -/
structure LocalsInv (s : Scope) (n : Nat) : Prop where
  count : s.locals.length + s.undeclared = n
  allLocal : (localIds s.locals).length = s.locals.length
  increasing : (localIds s.locals).Pairwise (· < ·)
  below : ∀ i ∈ localIds s.locals, i < n
  others : localIds (s.matrices ++ s.slices ++ s.readsScalar.map Prod.fst) = []

/-- A fresh scope has created no local and holds no variable of another kind. -/
theorem LocalsInv.fresh {s : Scope} (h : s.Fresh) : s.LocalsInv 0 := by
  constructor <;> simp [h.locals, h.undeclared, h.matrices, h.slices, h.readsScalar]

variable {s : Scope} {n : Nat}

/-- Below `2 ^ 16` locals, the next local index is their number. -/
theorem LocalsInv.newLocalIndex_eq (h : s.LocalsInv n) (hn : n < 2 ^ 16) :
    s.newLocalIndex = n := by
  have hlen : s.locals.length < 2 ^ 16 := by have := h.count; omega
  simp only [newLocalIndex, asU16_of_lt hlen, h.count, asU16_of_lt hn]

/-- Adding a declared local `n` keeps the invariant, at `n + 1`. -/
theorem LocalsInv.push_local (h : s.LocalsInv n) (item : Item) (depth : Nat) :
    LocalsInv { s with locals := s.locals ++ [.local n item depth] } (n + 1) where
  count := by simp [← h.count]; omega
  allLocal := by simp [h.allLocal]
  increasing := by
    simpa [List.pairwise_append] using ⟨h.increasing, h.below⟩
  below := by
    intro i hi
    simp only [localIds_append, localIds_local, List.mem_append, List.mem_singleton] at hi
    rcases hi with hi | rfl
    · exact Nat.lt_succ_of_lt (h.below i hi)
    · exact Nat.lt_succ_self _
  others := h.others

/-- A call that leaves the locals, the counter, the matrices, the slices and the scalar
reads alone keeps the invariant. -/
theorem LocalsInv.congr {s' : Scope} (h : s.LocalsInv n) (hl : s'.locals = s.locals)
    (hu : s'.undeclared = s.undeclared) (hm : s'.matrices = s.matrices)
    (hs : s'.slices = s.slices) (hr : s'.readsScalar = s.readsScalar) : s'.LocalsInv n := by
  obtain ⟨h₁, h₂, h₃, h₄, h₅⟩ := h
  exact ⟨hl ▸ hu ▸ h₁, hl ▸ h₂, hl ▸ h₃, hl ▸ h₄, hm ▸ hs ▸ hr ▸ h₅⟩

/-- `vectorize` keeps the invariant: it rewrites the items of the locals, not their ids. -/
theorem LocalsInv.vectorize (h : s.LocalsInv n) (factor : Nat) :
    (s.vectorize factor).LocalsInv n where
  count := by simpa only [Scope.vectorize, List.length_map] using h.count
  allLocal := by
    simpa only [Scope.vectorize, localIds_map_vectorize, List.length_map] using h.allLocal
  increasing := by simpa only [Scope.vectorize, localIds_map_vectorize] using h.increasing
  below := by simpa only [Scope.vectorize, localIds_map_vectorize] using h.below
  others := h.others

/-- An undeclared local `n` keeps the invariant, at `n + 1`. -/
theorem LocalsInv.bump_undeclared (h : s.LocalsInv n) (hn : n + 1 < 2 ^ 16) :
    LocalsInv { s with undeclared := asU16 (s.undeclared + 1) } (n + 1) where
  count := by
    have := h.count
    simp only [asU16_of_lt (show s.undeclared + 1 < 2 ^ 16 by omega)]
    omega
  allLocal := h.allLocal
  increasing := h.increasing
  below := fun i hi => Nat.lt_succ_of_lt (h.below i hi)
  others := h.others

/-- `process` keeps the invariant: it counts the declared locals into `undeclared`. -/
theorem LocalsInv.drained (h : s.LocalsInv n) (hn : n < 2 ^ 16) : s.drained.LocalsInv n where
  count := by
    have := h.count
    simp only [Scope.drained, List.length_nil, Nat.zero_add]
    rw [asU16_of_lt (show s.locals.length < 2 ^ 16 by omega),
      asU16_of_lt (show s.undeclared + s.locals.length < 2 ^ 16 by omega)]
    omega
  allLocal := rfl
  increasing := List.Pairwise.nil
  below := fun _ hi => absurd hi (List.not_mem_nil _)
  others := rfl

/-- The variables `process` lists hold the pending declared locals and no other `Local`:
their ids increase, and a sublist of them keeps the order. -/
theorem LocalsInv.processing_localIds {p : ScopeProcessing} {s' : Scope} (h : s.LocalsInv n)
    (hp : s.processing = some (p, s')) {vs : List Variable} (hvs : vs.Sublist p.variables) :
    (localIds vs).Pairwise (· < ·) := by
  have hvars := (process_builds s p s' hp).2.2.1
  have hothers := h.others
  simp only [localIds_append, List.append_eq_nil] at hothers
  have hsub : (localIds vs).Sublist (localIds p.variables) := hvs.filterMap _
  rw [hvars] at hsub
  simp only [localIds_append, hothers.1.1, hothers.1.2, hothers.2, List.append_nil] at hsub
  exact h.increasing.sublist hsub

variable {optimize : ScopeProcessing → ScopeProcessing}

/-- The step lemma. From a scope that has created `n` locals, one call that stays below
`2 ^ 16` locals keeps the invariant and the depth. A call that creates a local hands out
the local `n` at the scope's depth; any other call hands out no local, and a `process`
result lists its locals with increasing ids. -/
theorem LocalsInv.apply (hopt : ∀ p, (optimize p).variables.Sublist p.variables)
    (h : s.LocalsInv n) {op : ScopeOp} {r : ScopeResult} {s' : Scope}
    (happ : op.apply optimize s = some (r, s'))
    (hn : n + (if op.createsLocal then 1 else 0) < 2 ^ 16) :
    s'.LocalsInv (n + if op.createsLocal then 1 else 0) ∧ s'.depth = s.depth ∧
      r.local? = (if op.createsLocal then some (n, s.depth) else none) ∧
      ∀ p, r = .processing p → (localIds p.variables).Pairwise (· < ·) := by
  have hidx : op.createsLocal → s.newLocalIndex = n := fun hc =>
    h.newLocalIndex_eq (by simp only [hc, if_true] at hn; omega)
  cases op with
  | createLocal item =>
      cases happ
      rw [hidx rfl]
      exact ⟨h.push_local _ _, rfl, rfl, fun _ h => nomatch h⟩
  | createLocalUndeclared item =>
      cases happ
      rw [hidx rfl]
      exact ⟨h.bump_undeclared hn, rfl, rfl, fun _ h => nomatch h⟩
  | readArray _ item _ | zero item =>
      simp only [ScopeOp.apply, readArray, readInputStrategy, zero, createLocal, assign, register,
        Option.some.injEq, Prod.mk.injEq] at happ
      obtain ⟨rfl, rfl⟩ := happ
      rw [hidx rfl]
      exact ⟨(h.push_local item s.depth).congr rfl rfl rfl rfl rfl, rfl, rfl, fun _ h => nomatch h⟩
  | createWithValue value item =>
      simp only [ScopeOp.apply, createWithValue, createLocal, assign, register, Option.map_map,
        Option.map_eq_some', Function.comp_def, Prod.mk.injEq] at happ
      obtain ⟨c, -, rfl, rfl⟩ := happ
      rw [hidx rfl]
      exact ⟨(h.push_local item s.depth).congr rfl rfl rfl rfl rfl, rfl, rfl, fun _ h => nomatch h⟩
  | createMatrix _ | createSlice _ | readScalar _ _ =>
      -- a matrix, a slice or a scalar read: no local, one variable of another kind
      simp only [ScopeOp.apply, createMatrix, createSlice, readScalar, Option.some.injEq,
        Prod.mk.injEq] at happ
      obtain ⟨rfl, rfl⟩ := happ
      refine ⟨⟨h.count, h.allLocal, h.increasing, h.below, ?_⟩, rfl, rfl, fun _ h => nomatch h⟩
      have ho := h.others
      simp only [localIds_append, List.append_eq_nil] at ho
      obtain ⟨⟨hm, hs⟩, hr⟩ := ho
      simp only [localIds_append, List.map_append, hm, hs, hr, List.nil_append, List.append_nil]
      rfl
  | vectorize factor =>
      cases happ
      exact ⟨h.vectorize factor, rfl, rfl, fun _ h => nomatch h⟩
  | process =>
      obtain ⟨p, hp, rfl, rfl⟩ := apply_process_eq_some happ
      have hlt : n < 2 ^ 16 := by simpa using hn
      exact ⟨h.drained hlt, rfl, rfl, fun _ hq => by
        cases hq; exact h.processing_localIds hp (hopt p)⟩
  | updateRead index strategy =>
      cases happ
      obtain ⟨reads, hreads⟩ := updateRead_eq s index strategy
      rw [hreads]
      exact ⟨h.congr rfl rfl rfl rfl rfl, rfl, rfl, fun _ h => nomatch h⟩
  | createShared | createLocalArray | indexOffsetWithOutputLayout | register | writeGlobal
  | writeGlobalCustom =>
      cases happ
      exact ⟨h.congr rfl rfl rfl rfl rfl, rfl, rfl, fun _ h => nomatch h⟩

/-- The run lemma. From a scope that has created `n` locals, a run that stays below
`2 ^ 16` locals hands out the locals `n, n + 1, …` in call order at the scope's depth,
keeps the invariant, and every `process` result in it lists its locals with increasing
ids. -/
theorem LocalsInv.run (hopt : ∀ p, (optimize p).variables.Sublist p.variables) :
    ∀ (ops : List ScopeOp) {s : Scope} {n : Nat} {rs : List ScopeResult} {s' : Scope},
      s.LocalsInv n → Scope.run optimize s ops = some (rs, s') →
      n + ops.countP ScopeOp.createsLocal < 2 ^ 16 →
      s'.LocalsInv (n + ops.countP ScopeOp.createsLocal) ∧ s'.depth = s.depth ∧
      rs.filterMap ScopeResult.local? =
        (List.range' n (ops.countP ScopeOp.createsLocal)).map (·, s.depth) ∧
      ∀ p, ScopeResult.processing p ∈ rs → (localIds p.variables).Pairwise (· < ·)
  | [], s, n, rs, s', h, hrun, _ => by cases hrun; exact ⟨h, rfl, rfl, by simp⟩
  | op :: ops, s, n, rs, s', h, hrun, hn => by
      obtain ⟨r, s₁, rs', happ, hrun', rfl⟩ := run_cons_eq_some.mp hrun
      rw [List.countP_cons] at hn ⊢
      cases hc : op.createsLocal
      · simp only [hc, if_false, Nat.add_zero] at hn ⊢
        obtain ⟨h₁, hd₁, hr₁, hp₁⟩ := h.apply hopt happ (by simp [hc]; omega)
        simp only [hc, if_false, Nat.add_zero] at h₁ hr₁
        obtain ⟨h₂, hd₂, hr₂, hp₂⟩ := LocalsInv.run hopt ops h₁ hrun' hn
        refine ⟨h₂, hd₂.trans hd₁, by simp [List.filterMap_cons, hr₁, hr₂, hd₁], ?_⟩
        rintro p (_ | ⟨_, hp⟩)
        · exact hp₁ p rfl
        · exact hp₂ p hp
      · simp only [hc, if_true] at hn ⊢
        obtain ⟨h₁, hd₁, hr₁, hp₁⟩ := h.apply hopt happ (by simp [hc]; omega)
        simp only [hc, if_true] at h₁ hr₁
        obtain ⟨h₂, hd₂, hr₂, hp₂⟩ := LocalsInv.run hopt ops h₁ hrun' (by omega)
        refine ⟨by rwa [Nat.add_assoc, Nat.add_comm 1] at h₂, hd₂.trans hd₁, ?_, ?_⟩
        · simp [List.filterMap_cons, hr₁, hr₂, hd₁, List.range'_succ]
        · rintro p (_ | ⟨_, hp⟩)
          · exact hp₁ p rfl
          · exact hp₂ p hp

/-- The locals one scope hands out. Take a scope made by `root` or `child` and any run of
its methods (`process` included, with an `optimize` that keeps a sublist of the variables)
that creates fewer than `2 ^ 16` locals. The locals handed out, declared or not, have the
ids `0, 1, 2, …` in call order, all at the scope's depth: they are pairwise distinct, and
each id issued after a `process` exceeds every id issued before it. `new_local_index` ends
at their number, above every id issued. No `process` result lists two locals with one
id. -/
theorem scope_local_ids_distinct (optimize : ScopeProcessing → ScopeProcessing)
    (hopt : ∀ p, (optimize p).variables.Sublist p.variables)
    (s₀ : Scope) (hs₀ : s₀ = root ∨ ∃ parent : Scope, s₀ = parent.child)
    (ops : List ScopeOp) (rs : List ScopeResult) (s : Scope)
    (hrun : run optimize s₀ ops = some (rs, s))
    (hfew : ops.countP ScopeOp.createsLocal < 2 ^ 16) :
    rs.filterMap ScopeResult.local? =
      (List.range (ops.countP ScopeOp.createsLocal)).map (·, s₀.depth) ∧
    s.newLocalIndex = ops.countP ScopeOp.createsLocal ∧
    ∀ p, ScopeResult.processing p ∈ rs → (localIds p.variables).Nodup := by
  obtain ⟨hinv, -, hids, hprocess⟩ :=
    LocalsInv.run hopt ops (LocalsInv.fresh (fresh_of_root_or_child hs₀)) hrun
      (by simpa using hfew)
  rw [Nat.zero_add] at hinv
  refine ⟨by rw [hids, List.range_eq_range'], hinv.newLocalIndex_eq hfew, fun p hp => ?_⟩
  exact (hprocess p hp).imp Nat.ne_of_lt

/-- A root scope that declares a local, processes, then creates an undeclared one: the
undeclared local gets id `1`, past the processed one. -/
theorem scope_local_ids_after_process :
    ∃ rs s, run id root [.createLocal (Item.new .uint), .process,
        .createLocalUndeclared (Item.new .uint)] = some (rs, s) ∧
      rs.filterMap ScopeResult.local? = [(0, 0), (1, 0)] ∧ s.newLocalIndex = 2 := by
  obtain ⟨rs, s, hrun⟩ : ∃ rs s, run id root [.createLocal (Item.new .uint), .process,
      .createLocalUndeclared (Item.new .uint)] = some (rs, s) := ⟨_, _, rfl⟩
  obtain ⟨hids, hindex, -⟩ := scope_local_ids_distinct id (fun p => List.Sublist.refl _) root
    (Or.inl rfl) _ rs s hrun (by decide)
  exact ⟨rs, s, hrun, hids, hindex⟩

end Scope

end CubeCL.IR
