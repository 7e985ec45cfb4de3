import CubeCL.Frontend.Branch
import CubeCL.IR.Semantics

/-!
# `CubeCL.Frontend.RangeLoop`: the three forms of a range loop

A range loop over `u32` values has three forms in the code: the host functions `range`
and `range_stepped`; the unrolled expansion (`unroll = true`), which expands the body once
per value, with the value as a constant; and the runtime expansion, a `RangeLoop` that the
WGSL backend renders as `for (var i: u32 = start; i < end; i++)`, or `i += step`.

The rendered loop adds in `u32`, so its index wraps at `2 ^ 32`. `forLoopValues` gives
the index values it runs its body with, for a body that leaves the index, the bound and
the step alone; `fuel` bounds the number of turns.

* `forLoopValues_range`: the loop `i++` runs with the values of `start..end`, for every
  pair of `u32` bounds, and stops after `end - start` turns.
* `forLoopValues_stepped`: the loop `i += step` runs with the values of
  `(start..end).step_by(step)` as long as no increment passes `2 ^ 32`.
* `range_loop_forms_agree`: the three forms agree in both cases.
* `range_stepped_wraps_forever`: from `2 ^ 32 - 2` to `2 ^ 32 - 1` by `4`, the host and the
  unrolled loop run once, and the runtime loop never stops: its index goes round `u32`
  without reaching the bound.
-/

set_option autoImplicit false

namespace CubeCL.Frontend

open CubeCL.IR

/-- The index values of the rendered loop `for (var i: u32 = i; i < end; i += step)`
(`i++` is a step of `1`), for a body that leaves `i`, `end` and `step` alone; `none` when
`fuel` turns do not reach the end. -/
def forLoopValues : Nat → Nat → Nat → Nat → Option (List Nat)
  | 0, _, _, _ => none
  | fuel + 1, i, «end», step =>
      if i < «end» then (forLoopValues fuel ((i + step) % 2 ^ 32) «end» step).map (i :: ·)
      else some []

/-- The number of values of `(start..end).step_by(step)`. -/
def stepCount (start «end» step : Nat) : Nat := («end» - start + step - 1) / step

/-- A stepped range with a positive step is `stepCount` values from `start`, `step` apart. -/
theorem stepByValues_eq {start «end» step : Nat} (hstep : 0 < step) :
    stepByValues start «end» step = some (List.range' start (stepCount start «end» step) step) := by
  simp [stepByValues, stepCount, Nat.pos_iff_ne_zero.mp hstep]

/-- The count of a stepped range is the least `n` with `start + n * step` at or past
`end`. -/
theorem stepCount_spec {start «end» step : Nat} (hstep : 0 < step) :
    «end» ≤ start + stepCount start «end» step * step ∧
      ∀ k < stepCount start «end» step, start + k * step < «end» := by
  unfold stepCount
  have hdiv := Nat.div_add_mod («end» - start + step - 1) step
  have hmod := Nat.mod_lt («end» - start + step - 1) hstep
  rw [Nat.mul_comm] at hdiv
  refine ⟨by omega, fun k hk => ?_⟩
  have hle : k * step + step ≤ («end» - start + step - 1) / step * step := by
    rw [← Nat.succ_mul]
    exact Nat.mul_le_mul_right step hk
  omega

/-- While no increment passes `2 ^ 32`, the rendered loop runs with `start`,
`start + step`, … for the `n` turns that stay below `end`. -/
theorem forLoopValues_of_fit {«end» step : Nat} :
    ∀ (n start : Nat), start + n * step < 2 ^ 32 → (∀ k < n, start + k * step < «end») →
      «end» ≤ start + n * step →
      forLoopValues (n + 1) start «end» step = some (List.range' start n step)
  | 0, start, _, _, hend => by simp [forLoopValues, Nat.not_lt.mpr (by simpa using hend)]
  | n + 1, start, hfit, hlt, hend => by
      have hstart : start < «end» := by simpa using hlt 0 (Nat.succ_pos n)
      have hnext : (start + step) % 2 ^ 32 = start + step := by
        apply Nat.mod_eq_of_lt
        rw [Nat.add_mul, Nat.one_mul] at hfit
        omega
      rw [Nat.add_mul, Nat.one_mul] at hfit hend
      have hrest := @forLoopValues_of_fit «end» step n (start + step) (by omega)
        (fun k hk => by have := hlt (k + 1) (by omega); rw [Nat.add_mul, Nat.one_mul] at this; omega)
        (by omega)
      rw [forLoopValues, if_pos hstart, hnext, hrest]
      rfl

/-- The rendered `i += step` loop runs with the values of `(start..end).step_by(step)`
when the last increment stays below `2 ^ 32`. -/
theorem forLoopValues_stepped {start «end» step : Nat} (hstep : 0 < step)
    (hfit : start + stepCount start «end» step * step < 2 ^ 32) :
    forLoopValues (stepCount start «end» step + 1) start «end» step =
      stepByValues start «end» step := by
  obtain ⟨hend, hlt⟩ := stepCount_spec hstep
  rw [stepByValues_eq hstep]
  exact forLoopValues_of_fit _ _ hfit hlt hend

/-- The rendered `i++` loop runs with the values of `start..end`, for all `u32` bounds. -/
theorem forLoopValues_range {start «end» : Nat} (hstart : start < 2 ^ 32)
    (hend : «end» < 2 ^ 32) :
    forLoopValues («end» - start + 1) start «end» 1 = some (rangeValues start «end») :=
  forLoopValues_of_fit («end» - start) start (by omega) (fun _ _ => by omega) (by omega)

/-- The forms of a range loop over `u32` bounds agree. The rendered `i++` loop runs with
the values of the host `range`, and the unrolled `range_expand` expands the body once per
value, in order. For a step of at least one, the unrolled `range_stepped_expand` expands
the body once per value of the host `range_stepped`, and the rendered `i += step` loop runs
with those values too when its last increment stays below `2 ^ 32`. -/
theorem range_loop_forms_agree (start «end» step : Nat) (hstart : start < 2 ^ 32)
    (hend : «end» < 2 ^ 32) (hstep : 0 < step) :
    forLoopValues («end» - start + 1) start «end» 1 = some (range start «end» false) ∧
    (∀ (context : Scope) (func : Scope → Variable → Scope),
      rangeExpand context (constantIndex start) (constantIndex «end») true func =
        some ((range start «end» false).foldl (fun context i => func context (constantIndex i))
          context)) ∧
    (start + stepCount start «end» step * step < 2 ^ 32 →
      forLoopValues (stepCount start «end» step + 1) start «end» step =
        rangeStepped start «end» step false) ∧
    ∀ (context : Scope) (func : Scope → Variable → Scope),
      rangeSteppedExpand context (constantIndex start) (constantIndex «end») (constantIndex step)
          true func =
        (rangeStepped start «end» step false).map
          (·.foldl (fun context i => func context (constantIndex i)) context) := by
  refine ⟨forLoopValues_range hstart hend, fun _ _ => rfl, forLoopValues_stepped hstep,
    fun context func => ?_⟩
  simp [rangeSteppedExpand, rangeStepped, stepByValues_eq hstep]

/-- From `0` to `10`, by `3`. -/
theorem range_loop_forms_agree_small :
    forLoopValues 11 0 10 1 = some (range 0 10 false) ∧
    (∀ (context : Scope) (func : Scope → Variable → Scope),
      rangeExpand context (constantIndex 0) (constantIndex 10) true func =
        some ((range 0 10 false).foldl (fun context i => func context (constantIndex i))
          context)) ∧
    (0 + stepCount 0 10 3 * 3 < 2 ^ 32 →
      forLoopValues (stepCount 0 10 3 + 1) 0 10 3 = rangeStepped 0 10 3 false) ∧
    ∀ (context : Scope) (func : Scope → Variable → Scope),
      rangeSteppedExpand context (constantIndex 0) (constantIndex 10) (constantIndex 3) true func =
        (rangeStepped 0 10 3 false).map
          (·.foldl (fun context i => func context (constantIndex i)) context) :=
  range_loop_forms_agree 0 10 3 (by decide) (by decide) (by decide)

section Runtime

variable {σ : Type} {M : Machine σ} {i «end» : Variable} {step : Option Variable}
  {scope : Scope} {body : σ → σ}

/-- A `RangeLoop` whose body always falls through, as the function `body`, and leaves the
index, the bound and the step alone, ends exactly when the rendered loop's values reach
the bound: the semantics of `RangeLoop` is the loop `forLoopValues` counts. -/
theorem rangeFrom_terminates_iff
    (hbody : ∀ s t o, Exec M (.seq scope.operations) s t o ↔ t = body s ∧ o = .normal)
    (hindex : ∀ s, M.value i (body s) = M.value i s)
    (hassign : ∀ s n, M.value i (M.assign i n s) = n)
    (hendBody : ∀ s, M.value «end» (body s) = M.value «end» s)
    (hendAssign : ∀ s n, M.value «end» (M.assign i n s) = M.value «end» s)
    (hstepBody : ∀ s, M.increment step (body s) = M.increment step s)
    (hstepAssign : ∀ s n, M.increment step (M.assign i n s) = M.increment step s) (s : σ) :
    (∃ s' o, Exec M (.rangeFrom i «end» step scope) s s' o) ↔
      ∃ fuel values,
        forLoopValues fuel (M.value i s) (M.value «end» s) (M.increment step s) = some values := by
  constructor
  · rintro ⟨s', o, h⟩
    generalize hc : Code.rangeFrom i «end» step scope = c at h
    induction h with
    | rangeExit hge =>
        cases hc
        exact ⟨1, [], by simp [forLoopValues, hge]⟩
    | rangeNext hlt hturn _ _ ih =>
        cases hc
        obtain ⟨rfl, -⟩ := (hbody _ _ _).mp hturn
        obtain ⟨fuel, values, hvalues⟩ := ih rfl
        rw [hassign, hendAssign, hstepAssign, hindex, hendBody, hstepBody] at hvalues
        exact ⟨fuel + 1, _, by rw [forLoopValues, if_pos hlt, hvalues]; rfl⟩
    | rangeBroke _ hturn | rangeReturned _ hturn => cases hc; cases ((hbody _ _ _).mp hturn).2
    | _ => cases hc
  · rintro ⟨fuel, values, hvalues⟩
    induction fuel generalizing s values with
    | zero => cases hvalues
    | succ fuel ih =>
        rw [forLoopValues] at hvalues
        split at hvalues
        next hlt =>
          obtain ⟨rest, hrest, -⟩ := Option.map_eq_some'.mp hvalues
          obtain ⟨s', o, hrun⟩ := ih (M.assign i ((M.value i (body s) + M.increment step (body s))
            % 2 ^ 32) (body s)) rest
            (by rw [hassign, hendAssign, hstepAssign, hindex, hendBody, hstepBody]; exact hrest)
          exact ⟨s', o, .rangeNext hlt ((hbody _ _ _).mpr ⟨rfl, rfl⟩) hrun⟩
        next hge => exact ⟨s, .normal, .rangeExit hge⟩

end Runtime

/-- A machine whose state is the value of the loop index: every variable but a constant
reads the state, a constant reads its value, and only the index is written. -/
def indexMachine : Machine Nat where
  exec _ s := s
  value v s := match v with
    | .constantScalar value => value.asUsize
    | _ => s
  assign _ n _ := n

/-- From an index `≡ 2 (mod 4)` below `2 ^ 32`, the loop `i += 4` with bound `2 ^ 32 - 1`
never ends: each turn adds `4` in `u32`, which keeps the index `≡ 2 (mod 4)` and so at most
`2 ^ 32 - 2`. -/
theorem forLoopValues_wraps :
    ∀ (fuel i : Nat), i % 4 = 2 → i < 2 ^ 32 → forLoopValues fuel i (2 ^ 32 - 1) 4 = none
  | 0, _, _, _ => rfl
  | fuel + 1, i, hmod, hlt => by
      rw [forLoopValues, if_pos (by omega),
        forLoopValues_wraps fuel _ (by omega) (Nat.mod_lt _ (Nat.two_pow_pos 32))]
      rfl

/-- `range_stepped(2 ^ 32 - 2, 2 ^ 32 - 1, 4)`: the host loop and the unrolled expansion
run the body once, with `2 ^ 32 - 2`. The runtime expansion registers a `RangeLoop` with
an empty body that never ends: `i += 4` wraps to `2` and the index never reaches the bound
again. -/
theorem range_stepped_wraps_forever :
    rangeStepped (2 ^ 32 - 2) (2 ^ 32 - 1) 4 false = some [2 ^ 32 - 2] ∧
    (∀ func : Scope → Variable → Scope,
      rangeSteppedExpand Scope.root (constantIndex (2 ^ 32 - 2)) (constantIndex (2 ^ 32 - 1))
        (constantIndex 4) true func = some (func Scope.root (constantIndex (2 ^ 32 - 2)))) ∧
    ∃ loop, rangeSteppedExpand Scope.root (constantIndex (2 ^ 32 - 2))
        (constantIndex (2 ^ 32 - 1)) (constantIndex 4) false (fun scope _ => scope) =
        some (Scope.root.register (.branch loop)) ∧
      ∀ s' o, ¬ Exec indexMachine (.one (.branch loop)) 0 s' o := by
  refine ⟨rfl, fun _ => rfl, _, rfl, fun s' o h => ?_⟩
  rw [Exec.rangeLoop_iff] at h
  refine absurd ((@rangeFrom_terminates_iff _ indexMachine _ _ _ _ id ?_ ?_ ?_ ?_ ?_ ?_ ?_ _).mp
    ⟨s', o, h⟩) ?_
  · exact fun _ _ _ => Exec.seq_nil_iff
  · exact fun _ => rfl
  · exact fun _ _ => rfl
  · exact fun _ => rfl
  · exact fun _ _ => rfl
  · exact fun _ => rfl
  · exact fun _ _ => rfl
  · rintro ⟨fuel, values, hvalues⟩
    change forLoopValues fuel (2 ^ 32 - 2) (2 ^ 32 - 1) 4 = some values at hvalues
    rw [forLoopValues_wraps fuel _ (by decide) (by decide)] at hvalues
    cases hvalues

end CubeCL.Frontend
