import CubeCL.IR.Process

/-!
# `CubeCL.IR.Layout`: the layout reference of a scope

`layout_ref` is the output every input read with the `OutputLayout` strategy follows.
`write_global` and `write_global_custom` set it when it is unset, `child` copies the
parent's, and no other method writes it.

* `layoutRef_run`: after any run, `layout_ref` is the one the scope started with, or else
  the output of the first write of the run. It is `none` until that write, and it never
  changes once set.
* `PositionsValid` is the invariant behind the backfill: every remembered position
  indexes an `IndexOffsetGlobalWithLayout` procedure. `PositionsValid.apply` is its step
  lemma: appending operations and rewriting them in place keep it, `process` empties it.
* `processing_indexOffset_layout`: a procedure added through
  `index_offset_with_output_layout` reaches the operation list of the next `process` at
  its own place, with the layout reference as its layout.
* `scope_layout_ref` assembles these with the reads: every `ReadGlobalWithLayout` that
  `process` makes of a pending read carries the layout reference.
-/

set_option autoImplicit false

namespace CubeCL.IR

/-- The output a call writes the layout intent of. -/
def ScopeOp.writtenOutput? : ScopeOp → Option Variable
  | .writeGlobal _ output _ => some output
  | .writeGlobalCustom output => some output
  | _ => none

/-- An element of the first list of a pointwise relation has its partner at the same
index. -/
theorem forall₂_getElem? {α β : Type} {R : α → β → Prop} {l₁ : List α} {l₂ : List β}
    (h : List.Forall₂ R l₁ l₂) : ∀ {k : Nat} {a : α},
      l₁[k]? = some a → ∃ b, l₂[k]? = some b ∧ R a b := by
  induction h with
  | nil => intro k a h; simp at h
  | cons hab _ ih =>
      intro k a h
      cases k with
      | zero =>
          simp only [List.getElem?_cons_zero, Option.some.injEq] at h
          exact ⟨_, List.getElem?_cons_zero, h ▸ hab⟩
      | succ k => simpa using ih (by simpa using h)

/-- An element of the second list of a pointwise relation has a partner in the first. -/
theorem forall₂_exists_of_mem_right {α β : Type} {R : α → β → Prop} {l₁ : List α}
    {l₂ : List β} (h : List.Forall₂ R l₁ l₂) {b : β} (hb : b ∈ l₂) : ∃ a ∈ l₁, R a b := by
  induction h with
  | nil => cases hb
  | cons hab _ ih =>
      rcases List.mem_cons.mp hb with rfl | hb
      · exact ⟨_, List.mem_cons_self _ _, hab⟩
      · obtain ⟨a, ha, hr⟩ := ih hb
        exact ⟨a, List.mem_cons_of_mem _ ha, hr⟩

namespace Scope

variable {optimize : ScopeProcessing → ScopeProcessing}

/-- The step lemma of the layout reference: a call sets it only when it was unset and the
call writes. -/
theorem layoutRef_apply {s s' : Scope} {op : ScopeOp} {r : ScopeResult}
    (happ : op.apply optimize s = some (r, s')) :
    s'.layoutRef = (s.layoutRef <|> op.writtenOutput?) := by
  cases op with
  | writeGlobal input output position =>
      cases happ
      simp only [writeGlobal, ScopeOp.writtenOutput?]
      cases s.layoutRef <;> rfl
  | writeGlobalCustom output =>
      cases happ
      simp only [writeGlobalCustom, ScopeOp.writtenOutput?]
      cases s.layoutRef <;> rfl
  | createWithValue value item =>
      simp only [ScopeOp.apply, createWithValue, Option.map_map, Option.map_eq_some',
        Function.comp_def, Prod.mk.injEq] at happ
      obtain ⟨c, -, rfl, rfl⟩ := happ
      simp [ScopeOp.writtenOutput?, createLocal, assign, register]
  | updateRead index strategy =>
      cases happ
      obtain ⟨reads, hreads⟩ := updateRead_eq s index strategy
      simp [hreads, ScopeOp.writtenOutput?]
  | process =>
      obtain ⟨p, -, -, rfl⟩ := apply_process_eq_some happ
      simp [drained, ScopeOp.writtenOutput?]
  | _ =>
      cases happ
      simp [ScopeOp.writtenOutput?, createLocal, createLocalUndeclared, readArray,
        readInputStrategy, zero, assign, register, createMatrix, createSlice, createShared,
        createLocalArray, readScalar, indexOffsetWithOutputLayout, vectorize]

/-- The run lemma of the layout reference: the starting one, or else the output of the
first write. -/
theorem layoutRef_run :
    ∀ (ops : List ScopeOp) {s s' : Scope} {rs : List ScopeResult},
      run optimize s ops = some (rs, s') →
        s'.layoutRef = (s.layoutRef <|> ops.findSome? ScopeOp.writtenOutput?)
  | [], s, s', rs, h => by cases h; cases s.layoutRef <;> rfl
  | op :: ops, s, s', rs, h => by
      obtain ⟨r, s₁, rs', happ, hrun, rfl⟩ := run_cons_eq_some.mp h
      rw [layoutRef_run ops hrun, layoutRef_apply happ, List.findSome?_cons]
      cases s.layoutRef <;> cases op.writtenOutput? <;> rfl

/-- The operation at `k` is an `IndexOffsetGlobalWithLayout` procedure. -/
def IsIndexOffsetAt (ops : List Operation) (k : Nat) : Prop :=
  ∃ proc, ops[k]? = some (.procedure (.indexOffsetGlobalWithLayout proc))

/-- Operations registered later leave a remembered position in place. -/
theorem IsIndexOffsetAt.append {ops : List Operation} {k : Nat} (h : IsIndexOffsetAt ops k)
    (more : List Operation) : IsIndexOffsetAt (ops ++ more) k := by
  obtain ⟨proc, hproc⟩ := h
  exact ⟨proc, by rw [List.getElem?_append_left (List.getElem?_eq_some.mp hproc).1, hproc]⟩

/-- `vectorize` keeps the kind of every operation, so a remembered position stays one. -/
theorem IsIndexOffsetAt.vectorize {ops : List Operation} {k : Nat} (h : IsIndexOffsetAt ops k)
    (factor : Nat) : IsIndexOffsetAt (ops.map (Operation.vectorize factor)) k := by
  obtain ⟨proc, hproc⟩ := h
  exact ⟨_, by rw [List.getElem?_map, hproc]; rfl⟩

/-- The invariant behind the backfill of `process`: every remembered position indexes an
`IndexOffsetGlobalWithLayout` procedure. -/
def PositionsValid (s : Scope) : Prop :=
  ∀ k ∈ s.indexOffsetWithOutputLayoutPosition, IsIndexOffsetAt s.operations k

/-- What a call other than `process` does to the registered operations and the remembered
positions. Positions are only added, each one of an index-offset procedure, and an
index-offset procedure stays one at its place: operations are appended, or rewritten in
place by `vectorize`. -/
theorem apply_positions {s s' : Scope} {op : ScopeOp} {r : ScopeResult} (hop : op ≠ .process)
    (happ : op.apply optimize s = some (r, s')) :
    (∀ k ∈ s.indexOffsetWithOutputLayoutPosition, k ∈ s'.indexOffsetWithOutputLayoutPosition) ∧
    (∀ k ∈ s'.indexOffsetWithOutputLayoutPosition,
      k ∈ s.indexOffsetWithOutputLayoutPosition ∨ IsIndexOffsetAt s'.operations k) ∧
    (∀ k, IsIndexOffsetAt s.operations k → IsIndexOffsetAt s'.operations k) := by
  cases op with
  | indexOffsetWithOutputLayout proc =>
      cases happ
      refine ⟨fun k hk => List.mem_append_left _ hk, fun k hk => ?_, fun k h => h.append _⟩
      simp only [indexOffsetWithOutputLayout, List.mem_append, List.mem_singleton] at hk
      rcases hk with hk | rfl
      · exact Or.inl hk
      · exact Or.inr ⟨proc, List.getElem?_concat_length _ _⟩
  | vectorize factor =>
      cases happ
      exact ⟨fun k hk => hk, fun k hk => Or.inl hk, fun k h => h.vectorize factor⟩
  | register | zero =>
      cases happ
      exact ⟨fun k hk => hk, fun k hk => Or.inl hk, fun k h => h.append _⟩
  | createWithValue value item =>
      simp only [ScopeOp.apply, createWithValue, Option.map_map, Option.map_eq_some',
        Function.comp_def, Prod.mk.injEq] at happ
      obtain ⟨c, -, rfl, rfl⟩ := happ
      exact ⟨fun k hk => hk, fun k hk => Or.inl hk, fun k h => h.append _⟩
  | updateRead index strategy =>
      cases happ
      obtain ⟨reads, hreads⟩ := updateRead_eq s index strategy
      rw [hreads]
      exact ⟨fun k hk => hk, fun k hk => Or.inl hk, fun k h => h⟩
  | process => exact absurd rfl hop
  | _ =>
      cases happ
      exact ⟨fun k hk => hk, fun k hk => Or.inl hk, fun k h => h⟩

/-- The step lemma of `PositionsValid`: `process` forgets every position, and the other
calls keep the invariant by `apply_positions`. -/
theorem PositionsValid.apply {s s' : Scope} {op : ScopeOp} {r : ScopeResult}
    (h : s.PositionsValid) (happ : op.apply optimize s = some (r, s')) : s'.PositionsValid := by
  by_cases hop : op = .process
  · subst hop
    obtain ⟨p, -, -, rfl⟩ := apply_process_eq_some happ
    exact fun k hk => absurd hk (List.not_mem_nil k)
  · obtain ⟨-, hnew, hkeep⟩ := apply_positions hop happ
    intro k hk
    rcases hnew k hk with hk | hk
    · exact hkeep k (h k hk)
    · exact hk

/-- The run lemma of `PositionsValid`. -/
theorem PositionsValid.run :
    ∀ (ops : List ScopeOp) {s s' : Scope} {rs : List ScopeResult}, s.PositionsValid →
      Scope.run optimize s ops = some (rs, s') → s'.PositionsValid
  | [], s, s', rs, h, hrun => by cases hrun; exact h
  | op :: ops, s, s', rs, h, hrun => by
      obtain ⟨r, s₁, rs', happ, hrun', rfl⟩ := run_cons_eq_some.mp hrun
      exact PositionsValid.run ops (h.apply happ) hrun'

/-- Through a run without `process`, a remembered index-offset procedure stays remembered
and stays an index-offset procedure at its place. -/
theorem tracks_run :
    ∀ (ops : List ScopeOp) {s s' : Scope} {rs : List ScopeResult} {k : Nat},
      (∀ op ∈ ops, op ≠ .process) → k ∈ s.indexOffsetWithOutputLayoutPosition →
      IsIndexOffsetAt s.operations k → Scope.run optimize s ops = some (rs, s') →
      k ∈ s'.indexOffsetWithOutputLayoutPosition ∧ IsIndexOffsetAt s'.operations k
  | [], s, s', rs, k, _, hk, hop, hrun => by cases hrun; exact ⟨hk, hop⟩
  | op :: ops, s, s', rs, k, hnp, hk, hop, hrun => by
      obtain ⟨r, s₁, rs', happ, hrun', rfl⟩ := run_cons_eq_some.mp hrun
      obtain ⟨hpos, -, hkeep⟩ := apply_positions (hnp op (List.mem_cons_self _ _)) happ
      exact tracks_run ops (fun o ho => hnp o (List.mem_cons_of_mem _ ho)) (hpos k hk)
        (hkeep k hop) hrun'

/-- What the backfill loop leaves at a remembered index-offset procedure: an index-offset
procedure whose layout is the layout reference. -/
theorem backfill_at {layoutRef : Option Variable} :
    ∀ (positions : List Nat) {ops ops' : List Operation} {k : Nat}, k ∈ positions →
      IsIndexOffsetAt ops k → positions.foldlM (backfillLayout layoutRef) ops = some ops' →
      ∃ proc, ops'[k]? = some (.procedure (.indexOffsetGlobalWithLayout proc)) ∧
        layoutRef = some proc.layout
  | [], _, _, _, hk, _, _ => absurd hk (List.not_mem_nil _)
  | index :: positions, ops, ops', k, hk, ⟨proc, hproc⟩, h => by
      simp only [List.foldlM_cons, Option.bind_eq_bind, Option.bind_eq_some] at h
      obtain ⟨mid, hmid, hrest⟩ := h
      obtain ⟨b, hb, hrel⟩ := forall₂_getElem? (forall₂_backfillLayout hmid) hproc
      by_cases hk' : k ∈ positions
      · refine backfill_at positions hk' ?_ hrest
        rcases hrel with rfl | ⟨_, layout, -, -, rfl⟩
        · exact ⟨proc, hb⟩
        · exact ⟨_, hb⟩
      · obtain rfl : k = index := by simpa [hk'] using hk
        -- the turn at `k` sets the layout, and later turns set it again to the same
        unfold backfillLayout at hmid
        rw [hproc] at hmid
        obtain ⟨layout, hl, rfl⟩ := Option.map_eq_some'.mp hmid
        have hset : (ops.set k (.procedure (.indexOffsetGlobalWithLayout { proc with layout })))[k]?
            = some (.procedure (.indexOffsetGlobalWithLayout { proc with layout })) := by
          rw [List.getElem?_set_self (List.getElem?_eq_some.mp hproc).1]
        obtain ⟨c, hc, hrel'⟩ := forall₂_getElem? (forall₂_backfilled positions hrest) hset
        rcases hrel' with rfl | ⟨_, layout', hq, hl', rfl⟩
        · exact ⟨_, hc, hl⟩
        · simp only [Operation.procedure.injEq, Procedure.indexOffsetGlobalWithLayout.injEq] at hq
          subst hq
          exact ⟨_, hc, hl'⟩

/-- A remembered index-offset procedure reaches the operation list `process` builds at its
own place, after the guard, the reads and the scalar reads, with the layout reference as
its layout. -/
theorem processing_indexOffset_layout {s s' : Scope} {p : ScopeProcessing} {k : Nat}
    (hk : k ∈ s.indexOffsetWithOutputLayoutPosition) (hop : IsIndexOffsetAt s.operations k)
    (h : s.processing = some (p, s')) :
    ∃ proc, p.operations[s.earlyReturn.length + s.readsGlobal.length + s.readsScalar.length
        + k]? = some (.procedure (.indexOffsetGlobalWithLayout proc)) ∧
      s.layoutRef = some proc.layout := by
  rw [processing_eq] at h
  obtain ⟨registered, hreg, h⟩ := Option.bind_eq_some.mp h
  obtain ⟨reads, hreads, h⟩ := Option.map_eq_some'.mp h
  cases h
  obtain ⟨proc, hproc, hl⟩ := backfill_at _ hk hop hreg
  have hlen : reads.length = s.readsGlobal.length := (mapM_some_forall₂ hreads).length_eq.symm
  have hlt : k < registered.length := (List.getElem?_eq_some.mp hproc).1
  have hidx : s.earlyReturn.length + s.readsGlobal.length + s.readsScalar.length + k
      - (s.earlyReturn ++ reads ++ s.readsScalar.map scalarReadOperation).length = k := by
    simp only [List.length_append, List.length_map, hlen]; omega
  refine ⟨proc, ?_, hl⟩
  rw [List.append_assoc (s.earlyReturn ++ reads ++ _),
    List.getElem?_append_right (by simp only [List.length_append, List.length_map]; omega),
    hidx, List.getElem?_append_left hlt, hproc]

/-- A read that becomes a `ReadGlobalWithLayout` follows the layout reference. -/
theorem readOperation_layout {layoutRef : Option Variable}
    {read : Variable × ReadingStrategy × Variable × Variable} {proc : ReadGlobalWithLayout}
    (h : readOperation layoutRef read = some (.procedure (.readGlobalWithLayout proc))) :
    layoutRef = some proc.layout := by
  obtain ⟨input, _ | _, «local», position⟩ := read
  · obtain ⟨output, hout, hproc⟩ := Option.map_eq_some'.mp h
    cases hproc
    exact hout
  · cases h

/-- Every `ReadGlobalWithLayout` that `process` makes of a pending read, past the guard,
carries the layout reference. -/
theorem processing_reads_layout {s s' : Scope} {p : ScopeProcessing}
    (h : s.processing = some (p, s')) {proc : ReadGlobalWithLayout}
    (hmem : .procedure (.readGlobalWithLayout proc) ∈
      p.operations.take (s.earlyReturn.length + s.readsGlobal.length)) :
    s.layoutRef = some proc.layout := by
  rw [processing_eq] at h
  obtain ⟨registered, -, h⟩ := Option.bind_eq_some.mp h
  obtain ⟨reads, hreads, h⟩ := Option.map_eq_some'.mp h
  cases h
  have hforall := mapM_some_forall₂ hreads
  rw [List.append_assoc (s.earlyReturn ++ reads), List.append_assoc (s.earlyReturn ++ reads),
    List.take_left' (by simp [hforall.length_eq])] at hmem
  rcases List.mem_append.mp hmem with hguard | hread
  · rw [earlyReturn_eq] at hguard
    split_ifs at hguard <;> cases hw : s.writesGlobal.head? <;> simp [hw] at hguard
  · obtain ⟨read, -, hread⟩ := forall₂_exists_of_mem_right hforall hread
    exact readOperation_layout hread

/-- The layout reference of a scope made by `root` or `child`, over any run of its
methods. It is the parent's (`none` for a root) or else the output of the run's first
write, and a later run never changes it once set. Every remembered position indexes an
index-offset procedure, and the procedure added by an `index_offset_with_output_layout`
call that no `process` follows is remembered at its place. When `process` then builds
its operation list, every `ReadGlobalWithLayout` it makes of a pending read and every
remembered index-offset procedure carries the layout reference as its layout. -/
theorem scope_layout_ref (optimize : ScopeProcessing → ScopeProcessing)
    (s₀ : Scope) (hs₀ : s₀ = root ∨ ∃ parent : Scope, s₀ = parent.child)
    (ops : List ScopeOp) (rs : List ScopeResult) (s : Scope)
    (hrun : run optimize s₀ ops = some (rs, s)) :
    s.layoutRef = (s₀.layoutRef <|> ops.findSome? ScopeOp.writtenOutput?) ∧
    (∀ ops' rs' s', run optimize s ops' = some (rs', s') →
      ∀ v, s.layoutRef = some v → s'.layoutRef = some v) ∧
    s.PositionsValid ∧
    (∀ pre proc post rs₁ s₁, ops = pre ++ .indexOffsetWithOutputLayout proc :: post →
      (∀ op ∈ post, op ≠ .process) → run optimize s₀ pre = some (rs₁, s₁) →
      s₁.operations.length ∈ s.indexOffsetWithOutputLayoutPosition) ∧
    ∀ p s', s.processing = some (p, s') →
      (∀ proc : ReadGlobalWithLayout, .procedure (.readGlobalWithLayout proc) ∈
        p.operations.take (s.earlyReturn.length + s.readsGlobal.length) →
        s.layoutRef = some proc.layout) ∧
      ∀ k ∈ s.indexOffsetWithOutputLayoutPosition, ∃ proc,
        p.operations[s.earlyReturn.length + s.readsGlobal.length + s.readsScalar.length + k]?
          = some (.procedure (.indexOffsetGlobalWithLayout proc)) ∧
        s.layoutRef = some proc.layout := by
  have hvalid : s.PositionsValid := PositionsValid.run ops
    (fun k hk => by simp [(fresh_of_root_or_child hs₀).positions] at hk) hrun
  refine ⟨layoutRef_run ops hrun, fun ops' rs' s' h v hv => ?_, hvalid, ?_,
    fun p s' h => ⟨fun proc hmem => processing_reads_layout h hmem,
      fun k hk => processing_indexOffset_layout hk (hvalid k hk) h⟩⟩
  · rw [layoutRef_run ops' h, hv]
    rfl
  · rintro pre proc post rs₁ s₁ rfl hpost hpre
    rw [run_append, hpre, Option.some_bind] at hrun
    obtain ⟨⟨rs₂, s₂⟩, hrest, heq⟩ := Option.map_eq_some'.mp hrun
    cases heq
    obtain ⟨r, s₂, rs₃, happ, hrest, -⟩ := run_cons_eq_some.mp hrest
    cases happ
    refine (tracks_run post hpost ?_ ⟨proc, ?_⟩ hrest).1
    · simp [indexOffsetWithOutputLayout]
    · exact List.getElem?_concat_length _ _

/-- A root that writes, reads input `0` with the output layout and adds an index-offset
procedure: the read and the procedure both take the written output as their layout. -/
theorem scope_layout_ref_write_then_read :
    ∃ rs s, run id root [.writeGlobal .absolutePos (.globalOutputArray 0 (Item.new .uint))
          .absolutePos, .readArray 0 (Item.new .uint) .absolutePos,
        .indexOffsetWithOutputLayout ⟨[], .absolutePos⟩] = some (rs, s) ∧
      s.layoutRef = some (.globalOutputArray 0 (Item.new .uint)) ∧ s.PositionsValid := by
  obtain ⟨rs, s, hrun⟩ : ∃ rs s, run id root [.writeGlobal .absolutePos
      (.globalOutputArray 0 (Item.new .uint)) .absolutePos, .readArray 0 (Item.new .uint)
      .absolutePos, .indexOffsetWithOutputLayout ⟨[], .absolutePos⟩] = some (rs, s) :=
    ⟨_, _, rfl⟩
  obtain ⟨hlayout, -, hvalid, -⟩ := scope_layout_ref id root (Or.inl rfl) _ rs s hrun
  exact ⟨rs, s, hrun, by rw [hlayout]; rfl, hvalid⟩

end Scope

end CubeCL.IR
