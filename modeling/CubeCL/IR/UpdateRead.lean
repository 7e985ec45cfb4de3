import CubeCL.IR.Process

/-!
# `CubeCL.IR.UpdateRead`: changing the strategy of a pending read

`Scope::update_read(index, strategy)` looks for a pending global read of input `index`
with `iter_mut().find(..)` and overwrites its strategy. `find` stops at the first match,
so only the first pending read of the input changes: a second read of the same input, as
two `read_array` calls of one input make, keeps the strategy it was recorded with, and the
next `process` builds its read procedure from that strategy.

* `findIdx?_first` and `modify_first` locate the read `find` stops at and what the update
  does to the list.
* `update_read_first_only`: over every list of pending reads, the first read of the input
  takes the new strategy and every other read keeps its own. After
  `update_read(index, Plain)`, a later `OutputLayout` read of the same input still becomes
  a `ReadGlobalWithLayout` when the scope is processed.
-/

set_option autoImplicit false

namespace CubeCL.IR

/-- The first element that satisfies `p`, after a prefix where none does, is found at the
prefix's length. -/
theorem findIdx?_first {α : Type} (p : α → Bool) (pre rest : List α) (first : α)
    (hpre : ∀ a ∈ pre, p a = false) (hfirst : p first = true) :
    (pre ++ first :: rest).findIdx? p = some pre.length := by
  rw [List.findIdx?_append, List.findIdx?_eq_none_iff.mpr hpre, List.findIdx?_cons, if_pos hfirst]
  simp

/-- Modifying the element at the prefix's length modifies `first` and nothing else. -/
theorem modify_first {α : Type} (f : α → α) (pre rest : List α) (first : α) :
    (pre ++ first :: rest).modify f pre.length = pre ++ f first :: rest := by
  induction pre with
  | nil => rfl
  | cons a pre ih => simp [ih]

/-- An element of a list that `mapM` maps has its image among the results. -/
theorem exists_mem_of_mapM {α β : Type} {f : α → Option β} {l : List α} {bs : List β}
    (h : l.mapM f = some bs) : ∀ a ∈ l, ∃ b ∈ bs, f a = some b := by
  have hf := mapM_some_forall₂ h
  clear h
  induction hf with
  | nil => exact fun a ha => absurd ha (List.not_mem_nil a)
  | cons hab _ ih =>
      intro x hx
      rcases List.mem_cons.mp hx with rfl | hx
      · exact ⟨_, List.mem_cons_self _ _, hab⟩
      · obtain ⟨b, hb, hfb⟩ := ih x hx
        exact ⟨b, List.mem_cons_of_mem _ hb, hfb⟩

namespace Scope

/-- `update_read` over every list of pending reads. When no pending read before `first`
reads input `index` and `first` does, `first` takes the new strategy and every other read
keeps its own, a later read of the same input included. So after
`update_read(index, Plain)`, when the scope is processed, a later read recorded with
`OutputLayout` still becomes a `ReadGlobalWithLayout` on the layout reference. -/
theorem update_read_first_only (s : Scope) (index : Nat) (strategy : ReadingStrategy)
    (pre mid post : List (Variable × ReadingStrategy × Variable × Variable))
    (first second : Variable × ReadingStrategy × Variable × Variable)
    (hreads : s.readsGlobal = pre ++ first :: mid ++ second :: post)
    (hpre : ∀ r ∈ pre, r.1.index? ≠ some index) (hfirst : first.1.index? = some index) :
    (s.updateRead index strategy).readsGlobal =
        pre ++ (first.1, strategy, first.2.2) :: mid ++ second :: post ∧
      ∀ p s', (s.updateRead index .plain).processing = some (p, s') →
        second.2.1 = .outputLayout →
        ∃ output, s.layoutRef = some output ∧
          .procedure (.readGlobalWithLayout ⟨[second.1], output, [second.2.2.1], second.2.2.2⟩)
            ∈ p.operations := by
  have hlayout : ∀ strategy, (s.updateRead index strategy).layoutRef = s.layoutRef :=
    fun strategy => by obtain ⟨reads, h⟩ := updateRead_eq s index strategy; rw [h]
  have hupdate : ∀ strategy, (s.updateRead index strategy).readsGlobal =
      pre ++ (first.1, strategy, first.2.2) :: mid ++ second :: post := fun strategy => by
    have hfind := findIdx?_first (fun r => r.1.index? == some index) pre (mid ++ second :: post)
      first (fun r hr => by simpa using hpre r hr) (by simpa using hfirst)
    simp only [List.append_assoc, List.cons_append] at hreads ⊢
    simp only [updateRead, hreads, hfind, modify_first]
  refine ⟨hupdate strategy, fun p s' hp hsecond => ?_⟩
  rw [processing_eq] at hp
  obtain ⟨registered, -, hp⟩ := Option.bind_eq_some.mp hp
  obtain ⟨reads, hmapM, hp⟩ := Option.map_eq_some'.mp hp
  obtain ⟨op, hop, hread⟩ := exists_mem_of_mapM hmapM second (by simp [hupdate])
  obtain ⟨input, strategy', out, position⟩ := second
  simp only at hsecond
  subst hsecond
  obtain ⟨output, houtput, rfl⟩ := Option.map_eq_some'.mp hread
  refine ⟨output, hlayout .plain ▸ houtput, ?_⟩
  cases hp
  simp [hop]

/-- A root scope that writes output `0` and reads input `0` twice with `read_array`, both
reads with the `OutputLayout` strategy. -/
def twoReadsOfOneInput : Scope :=
  let s := root.writeGlobal .absolutePos (.globalOutputArray 0 (Item.new (.float .f32)))
    .absolutePos
  let s := (s.readArray 0 (Item.new (.float .f32)) .absolutePos).2
  (s.readArray 0 (Item.new (.float .f32)) .absolutePos).2

/-- After `update_read(0, Plain)` on that scope, the first read is `Plain`, the second is
still `OutputLayout`, and `process` makes a `ReadGlobalWithLayout` of the second. -/
theorem update_read_first_only_two_reads :
    (twoReadsOfOneInput.updateRead 0 .plain).readsGlobal =
        [(.globalInputArray 0 (Item.new (.float .f32)), .plain,
            .local 0 (Item.new (.float .f32)) 0, .absolutePos),
          (.globalInputArray 0 (Item.new (.float .f32)), .outputLayout,
            .local 1 (Item.new (.float .f32)) 0, .absolutePos)] ∧
      ∃ p s', (twoReadsOfOneInput.updateRead 0 .plain).processing = some (p, s') ∧
        ∃ output, twoReadsOfOneInput.layoutRef = some output ∧
          .procedure (.readGlobalWithLayout ⟨[.globalInputArray 0 (Item.new (.float .f32))],
            output, [.local 1 (Item.new (.float .f32)) 0], .absolutePos⟩) ∈ p.operations := by
  obtain ⟨hreads, hprocess⟩ := update_read_first_only twoReadsOfOneInput 0 .plain [] [] []
    _ _ rfl (fun r hr => absurd hr (List.not_mem_nil r)) rfl
  obtain ⟨p, s', hp⟩ : ∃ p s', (twoReadsOfOneInput.updateRead 0 .plain).processing =
      some (p, s') := ⟨_, _, rfl⟩
  exact ⟨hreads, p, s', hp, hprocess p s' hp rfl⟩

end Scope

end CubeCL.IR
