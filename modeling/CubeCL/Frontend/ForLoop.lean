import CubeCL.Frontend.Codegen
import CubeCL.Frontend.RangeLoop

/-!
# `CubeCL.Frontend.ForLoop`: the expansions of a `for` loop against the host loop

`for i in range(start, end, unroll) { body }` becomes
`range_expand(context, start, end, unroll, |context, i| body)`, and `range_stepped` becomes
`range_stepped_expand` (`codegen_for_loop`). The body is a closure over the index,
`func context i`. With `unroll = true` it is expanded once per value, with the value as a
constant, into the current scope. With `unroll = false` it is expanded once, in a child
scope, over an undeclared `u32` local, and the child is registered as a `RangeLoop`.

The host loop runs the body with each value in turn. Its run before the loop catches a
`break` is `ForRuns`: the bodies in sequence, until one breaks or returns. The loop itself
ends normally on a `break` (`caughtBreak`). The body's meaning at each index value is a
parameter, `body v`. Each form of the expansion is compared with the host loop over it:

* `Emits.unrolled`: the unrolled expansion runs as `ForRuns`, for a body emitter that,
  given the constant `v`, emits `body v`. Nothing catches its `break`: a `break` in an
  unrolled body ends the scope the loop was expanded into.
* `rangeFrom_runs`, `runs_rangeFrom`: a `RangeLoop` runs as the host loop over the index
  values `forLoopValues` gives, its `break` caught, up to the final value of the index. The
  body has to run, with the index set to `v`, as `body v` with the index kept, and leave
  the bound and the step alone.
* `range_expand_runs_host_loop`, `range_stepped_expand_runs_host_loop`: both expansions of
  `range` and of `range_stepped` against the host loop over the values of the host
  functions, the stepped one as long as no increment wraps.
-/

set_option autoImplicit false

namespace CubeCL.Frontend

open CubeCL.IR

/-- How the code around a loop sees it end: a `break` ends the loop normally. -/
def caughtBreak : Outcome → Outcome
  | .broke => .normal
  | o => o

section Host

variable {σ : Type}

/-- The host loop `for v in values { body }` before its `break` is caught: the body runs
with each value in turn while it ends normally, and the first `break` or `return` ends the
run with that outcome. -/
inductive ForRuns (body : Nat → σ → σ → Outcome → Prop) : List Nat → σ → σ → Outcome → Prop
  where
  | done (s : σ) : ForRuns body [] s s .normal
  | next {v : Nat} {vs : List Nat} {s s₁ s₂ : σ} {o : Outcome} :
      body v s s₁ .normal → ForRuns body vs s₁ s₂ o → ForRuns body (v :: vs) s s₂ o
  | stop {v : Nat} {vs : List Nat} {s s₁ : σ} {o : Outcome} :
      body v s s₁ o → o ≠ .normal → ForRuns body (v :: vs) s s₁ o

variable {body : Nat → σ → σ → Outcome → Prop}

/-- The host loop `for v in values { body }`: the bodies in sequence, a `break` ending the
loop normally. -/
def ForLoopRuns (body : Nat → σ → σ → Outcome → Prop) (values : List Nat) (s s' : σ)
    (o : Outcome) : Prop :=
  ∃ o', ForRuns body values s s' o' ∧ o = caughtBreak o'

/-- `loop` runs from `s` as `host` up to the final value of the index `i`: every run of
`loop` is a run of `host` with `i` then set, and every run of `host` is one of `loop` with
`i` then set. -/
def RunsUpToIndex (M : Machine σ) (i : Variable) (loop host : σ → σ → Outcome → Prop)
    (s : σ) : Prop :=
  (∀ s' o, loop s s' o → ∃ t' w, host s t' o ∧ s' = M.assign i w t') ∧
    ∀ t' o, host s t' o → ∃ w, loop s (M.assign i w t') o

theorem forRuns_nil : ForRuns body [] = normalStep id := by
  refine relation_ext fun s s' o => ⟨fun h => ?_, fun ⟨hs, ho⟩ => hs ▸ ho ▸ .done s⟩
  cases h
  exact ⟨rfl, rfl⟩

/-- The bodies over `v :: vs` are the body at `v`, then the bodies over `vs`. -/
theorem forRuns_cons (v : Nat) (vs : List Nat) :
    ForRuns body (v :: vs) = SeqRuns (body v) (ForRuns body vs) := by
  refine relation_ext fun s s' o => ⟨fun h => ?_, fun h => ?_⟩
  · cases h with
    | next h₁ h₂ => exact .inl ⟨_, h₁, h₂⟩
    | stop h ho => exact .inr ⟨h, ho⟩
  · rcases h with ⟨t, h₁, h₂⟩ | ⟨h, ho⟩
    exacts [.next h₁ h₂, .stop h ho]

end Host

/-! ### The unrolled expansion -/

section Unrolled

variable {σ : Type} {M : Machine σ} {func : Scope → Variable → Scope}
  {body : Nat → σ → σ → Outcome → Prop}

/-- Expanding the body once per value, each with its value as a constant, runs as the
bodies in sequence. -/
theorem Emits.unrolled
    (hconst : ∀ v, Emits M (fun context => func context (constantIndex v)) (body v)) :
    ∀ values : List Nat,
      Emits M (fun context => values.foldl (fun context v => func context (constantIndex v))
        context) (ForRuns body values)
  | [] => (@forRuns_nil σ body).symm ▸ Emits.keep
  | v :: values =>
      (@forRuns_cons σ body v values).symm ▸ (hconst v).comp (Emits.unrolled hconst values)

end Unrolled

/-! ### The `RangeLoop` -/

/-- What a run of the rendered loop from `v` can be: a turn at `v` below the bound, then the
values from the next index, or no turn at all. -/
theorem forLoopValues_eq_some {fuel v «end» step : Nat} {values : List Nat}
    (h : forLoopValues fuel v «end» step = some values) :
    (v < «end» ∧ ∃ fuel' rest, values = v :: rest ∧
        forLoopValues fuel' ((v + step) % 2 ^ 32) «end» step = some rest) ∨
      (¬ v < «end» ∧ values = []) := by
  cases fuel with
  | zero => cases h
  | succ fuel =>
      rw [forLoopValues] at h
      split at h
      · next hlt =>
          obtain ⟨rest, hrest, rfl⟩ := Option.map_eq_some'.mp h
          exact .inl ⟨hlt, fuel, rest, rfl, hrest⟩
      · next hge => exact .inr ⟨hge, (Option.some.inj h).symm⟩

section Runtime

variable {σ : Type} {M : Machine σ} {i «end» : Variable} {step : Option Variable}
  {scope : Scope} {body : Nat → σ → σ → Outcome → Prop}

/-- After a normal turn at `v` that left the state `t₁` with the index set, the index takes
its next value over `t₁`. -/
theorem rangeFrom_next_state (hassign : ∀ s n, M.value i (M.assign i n s) = n)
    (hreassign : ∀ s m n, M.assign i n (M.assign i m s) = M.assign i n s)
    (hstepAssign : ∀ s n, M.increment step (M.assign i n s) = M.increment step s)
    (v : Nat) (t₁ : σ) :
    M.assign i ((M.value i (M.assign i v t₁) + M.increment step (M.assign i v t₁)) % 2 ^ 32)
        (M.assign i v t₁) =
      M.assign i ((v + M.increment step t₁) % 2 ^ 32) t₁ := by
  rw [hassign, hstepAssign, hreassign]

variable
  (hbody : ∀ v t s' o, Exec M (.seq scope.operations) (M.assign i v t) s' o ↔
    ∃ t', body v t t' o ∧ s' = M.assign i v t')
  (hassign : ∀ s n, M.value i (M.assign i n s) = n)
  (hreassign : ∀ s m n, M.assign i n (M.assign i m s) = M.assign i n s)
  (hendAssign : ∀ s n, M.value «end» (M.assign i n s) = M.value «end» s)
  (hendBody : ∀ v t t' o, body v t t' o → M.value «end» t' = M.value «end» t)
  (hstepAssign : ∀ s n, M.increment step (M.assign i n s) = M.increment step s)
  (hstepBody : ∀ v t t' o, body v t t' o → M.increment step t' = M.increment step t)
include hbody hassign hreassign hendAssign hendBody hstepAssign hstepBody

/-- Every run of a `RangeLoop` whose index starts at `v` over the state `t` is a run of the
host loop over the values the loop visits, its `break` caught, ending with the index set. -/
theorem rangeFrom_runs {v : Nat} {t s' : σ} {o : Outcome}
    (h : Exec M (.rangeFrom i «end» step scope) (M.assign i v t) s' o) {fuel : Nat}
    {values : List Nat}
    (hvalues : forLoopValues fuel v (M.value «end» t) (M.increment step t) = some values) :
    ∃ t' w, ForLoopRuns body values t t' o ∧ s' = M.assign i w t' := by
  generalize hc : Code.rangeFrom i «end» step scope = c at h
  generalize hs : M.assign i v t = s at h
  induction h generalizing v t fuel values with
  | rangeExit hge =>
      cases hc; subst hs
      rw [hassign, hendAssign] at hge
      rcases forLoopValues_eq_some hvalues with ⟨hlt, -⟩ | ⟨-, rfl⟩
      · exact absurd hlt hge
      · exact ⟨t, v, ⟨.normal, .done t, rfl⟩, rfl⟩
  | rangeNext hlt hturn _ _ ih =>
      cases hc; subst hs
      rw [hassign, hendAssign] at hlt
      obtain ⟨t₁, hrun, rfl⟩ := (hbody _ _ _ _).mp hturn
      rcases forLoopValues_eq_some hvalues with ⟨-, fuel, rest, rfl, hrest⟩ | ⟨hge, -⟩
      · rw [← hendBody _ _ _ _ hrun, ← hstepBody _ _ _ _ hrun] at hrest
        obtain ⟨t', w, ⟨o', hfor, ho⟩, hs'⟩ :=
          ih hrest rfl (rangeFrom_next_state hassign hreassign hstepAssign v t₁).symm
        exact ⟨t', w, ⟨o', .next hrun hfor, ho⟩, hs'⟩
      · exact absurd hlt hge
  | rangeBroke hlt hturn | rangeReturned hlt hturn =>
      cases hc; subst hs
      rw [hassign, hendAssign] at hlt
      obtain ⟨t₁, hrun, rfl⟩ := (hbody _ _ _ _).mp hturn
      rcases forLoopValues_eq_some hvalues with ⟨-, fuel, rest, rfl, -⟩ | ⟨hge, -⟩
      · exact ⟨t₁, v, ⟨_, .stop hrun nofun, rfl⟩, rfl⟩
      · exact absurd hlt hge
  | _ => cases hc

/-- Every run of the host loop over the values a `RangeLoop` visits is a run of that
loop, its `break` caught, ending with the index set. -/
theorem runs_rangeFrom {values : List Nat} {t t' : σ} {o' : Outcome}
    (h : ForRuns body values t t' o') {fuel v : Nat}
    (hvalues : forLoopValues fuel v (M.value «end» t) (M.increment step t) = some values) :
    ∃ w, Exec M (.rangeFrom i «end» step scope) (M.assign i v t) (M.assign i w t')
      (caughtBreak o') := by
  have hlt' {v : Nat} {t : σ} (hlt : v < M.value «end» t) :
      M.value i (M.assign i v t) < M.value «end» (M.assign i v t) := by
    rwa [hassign, hendAssign]
  induction h generalizing fuel v with
  | done t =>
      rcases forLoopValues_eq_some hvalues with ⟨_, _, _, hnil, _⟩ | ⟨hge, -⟩
      · cases hnil
      · exact ⟨v, .rangeExit (by rwa [hassign, hendAssign])⟩
  | next hrun _ ih =>
      rcases forLoopValues_eq_some hvalues with ⟨hlt, fuel, rest, hcons, hrest⟩ | ⟨-, hnil⟩
      · obtain ⟨rfl, rfl⟩ := List.cons.inj hcons
        rw [← hendBody _ _ _ _ hrun, ← hstepBody _ _ _ _ hrun] at hrest
        obtain ⟨w, hloop⟩ := ih hrest
        refine ⟨w, .rangeNext (hlt' hlt) ((hbody _ _ _ _).mpr ⟨_, hrun, rfl⟩) ?_⟩
        rwa [rangeFrom_next_state hassign hreassign hstepAssign]
      · cases hnil
  | @stop _ _ _ _ o hrun ho =>
      rcases forLoopValues_eq_some hvalues with ⟨hlt, _, _, hcons, _⟩ | ⟨-, hnil⟩
      · obtain ⟨rfl, rfl⟩ := List.cons.inj hcons
        have hturn := (hbody _ _ _ _).mpr ⟨_, hrun, rfl⟩
        cases o with
        | normal => exact absurd rfl ho
        | broke => exact ⟨_, .rangeBroke (hlt' hlt) hturn⟩
        | returned => exact ⟨_, .rangeReturned (hlt' hlt) hturn⟩
      · cases hnil

/-- A `RangeLoop` runs as the host loop over the values it visits from where it starts, up
to the final value of its index. -/
theorem rangeLoop_runs {start : Variable} {s : σ} {fuel : Nat} {values : List Nat}
    (hvalues : forLoopValues fuel (M.value start s) (M.value «end» s) (M.increment step s) =
      some values) :
    RunsUpToIndex M i (Exec M (.one (.branch (.rangeLoop i start «end» step scope))))
      (ForLoopRuns body values) s :=
  ⟨fun _ _ h => rangeFrom_runs hbody hassign hreassign hendAssign hendBody hstepAssign hstepBody
      (Exec.rangeLoop_iff.mp h) hvalues,
    fun _ _ ⟨_, h, ho⟩ => ho ▸ (runs_rangeFrom hbody hassign hreassign hendAssign hendBody
      hstepAssign hstepBody h hvalues).imp fun _ => Exec.rangeLoop_iff.mpr⟩

end Runtime

/-! ### `range_expand` and `range_stepped_expand` -/

section Expand

variable {σ : Type} (M : Machine σ) (context : Scope) (func : Scope → Variable → Scope)
  (body : Nat → σ → σ → Outcome → Prop) (start «end» : Variable)
  (hconst : ∀ v, Emits M (fun context => func context (constantIndex v)) (body v))
  {i : Variable} {child : Scope}
  (hlocal : context.child.createLocalUndeclared (Item.new .uint) = (i, child))
  (hbody : ∀ v t s' o, Exec M (.seq (func child i).operations) (M.assign i v t) s' o ↔
    ∃ t', body v t t' o ∧ s' = M.assign i v t')
  (hassign : ∀ s n, M.value i (M.assign i n s) = n)
  (hreassign : ∀ s m n, M.assign i n (M.assign i m s) = M.assign i n s)
  (hendAssign : ∀ s n, M.value «end» (M.assign i n s) = M.value «end» s)
  (hendBody : ∀ v t t' o, body v t t' o → M.value «end» t' = M.value «end» t)
include hconst hlocal hbody hassign hreassign hendAssign hendBody

/-- `range_expand` against the host loop `for v in start..end { body v }`.

Unrolled over constant bounds, it appends operations that run as the bodies at the values
of `start..end` in sequence, and nothing catches a `break` among them. At runtime it
registers a `RangeLoop` over an undeclared `u32` local `i` of a child scope, which, for `u32`
bounds, runs as the host loop, its `break` caught, up to the final value of `i`. The body
emitter emits `body v` given the constant `v`, and, given `i`, operations that run as
`body v` from a state where `i` is `v`, keeping it; the body and the index leave the bound
alone. -/
theorem range_expand_runs_host_loop :
    (∀ a b, unrollBound start = some a → unrollBound «end» = some b →
      ∃ scope ops, rangeExpand context start «end» true func = some scope ∧
        scope.operations = context.operations ++ ops ∧
        Exec M (.seq ops) = ForRuns body (rangeValues a b)) ∧
    rangeExpand context start «end» false func =
      some (context.register (.branch (.rangeLoop i start «end» none (func child i)))) ∧
    ∀ s, M.value start s < 2 ^ 32 → M.value «end» s < 2 ^ 32 →
      RunsUpToIndex M i (Exec M (.one (.branch (.rangeLoop i start «end» none (func child i)))))
        (ForLoopRuns body (rangeValues (M.value start s) (M.value «end» s))) s := by
  refine ⟨fun a b ha hb => ?_, by simp [rangeExpand, hlocal], fun s hs he => ?_⟩
  · obtain ⟨ops, hops, hrun⟩ := Emits.unrolled hconst (rangeValues a b) context
    exact ⟨_, ops, by simp [rangeExpand, ha, hb], hops, hrun⟩
  · have hstep : ∀ s n, M.increment none (M.assign i n s) = M.increment none s :=
      fun _ _ => rfl
    exact rangeLoop_runs hbody hassign hreassign hendAssign hendBody hstep
      (fun _ _ _ _ _ => rfl) (forLoopValues_range hs he)

/-- `range_stepped_expand` against the host loop `for v in (start..end).step_by(step)`.

Unrolled over constant bounds and step, it appends operations that run as the bodies at
the values of `range_stepped` in sequence, and nothing catches a `break` among them. At
runtime it registers a `RangeLoop` with the step, which runs as the host loop, its `break`
caught, up to the final value of its index, as long as no increment passes `2 ^ 32`. The
body emitter is as for `range_expand`, and the body and the index leave the step alone
too. -/
theorem range_stepped_expand_runs_host_loop (step : Variable)
    (hstepAssign : ∀ s n, M.value step (M.assign i n s) = M.value step s)
    (hstepBody : ∀ v t t' o, body v t t' o → M.value step t' = M.value step t) :
    (∀ a b n values, unrollBound start = some a → unrollBound «end» = some b →
      unrollBound step = some n → stepByValues a b n = some values →
      ∃ scope ops, rangeSteppedExpand context start «end» step true func = some scope ∧
        scope.operations = context.operations ++ ops ∧ Exec M (.seq ops) = ForRuns body values) ∧
    rangeSteppedExpand context start «end» step false func =
      some (context.register (.branch (.rangeLoop i start «end» (some step) (func child i)))) ∧
    ∀ s values, stepByValues (M.value start s) (M.value «end» s) (M.value step s) = some values →
      M.value start s + stepCount (M.value start s) (M.value «end» s) (M.value step s) *
          M.value step s < 2 ^ 32 →
      RunsUpToIndex M i
        (Exec M (.one (.branch (.rangeLoop i start «end» (some step) (func child i)))))
        (ForLoopRuns body values) s := by
  refine ⟨fun a b n values ha hb hn hvalues => ?_, by simp [rangeSteppedExpand, hlocal],
    fun s values hvalues hfit => ?_⟩
  · obtain ⟨ops, hops, hrun⟩ := Emits.unrolled hconst values context
    exact ⟨_, ops, by simp [rangeSteppedExpand, ha, hb, hn, hvalues], hops, hrun⟩
  · have hstep : 0 < M.value step s := by
      refine Nat.pos_of_ne_zero fun h0 => ?_
      simp [stepByValues, h0] at hvalues
    have hincrement : ∀ s n, M.increment (some step) (M.assign i n s) =
        M.increment (some step) s := hstepAssign
    exact rangeLoop_runs hbody hassign hreassign hendAssign hendBody hincrement hstepBody
      ((forLoopValues_stepped hstep hfit).trans hvalues)

end Expand

/-- The body `break`, expanded over the index of a runtime range loop of the root scope:
run with the index set, it breaks in place. -/
theorem breakBody_runs (v t s' : Nat) (o : Outcome) :
    Exec indexMachine (.seq (breakExpand (Scope.root.child.createLocalUndeclared
        (Item.new .uint)).2).operations)
      (indexMachine.assign (Scope.root.child.createLocalUndeclared (Item.new .uint)).1 v t) s' o ↔
    ∃ t', (t' = t ∧ o = .broke) ∧
      s' = indexMachine.assign (Scope.root.child.createLocalUndeclared (Item.new .uint)).1 v t' := by
  rw [show (breakExpand (Scope.root.child.createLocalUndeclared (Item.new .uint)).2).operations =
    [.branch .break] from rfl, Exec.seq_singleton_iff, Exec.break_iff]
  constructor
  · rintro ⟨rfl, rfl⟩
    exact ⟨t, ⟨rfl, rfl⟩, rfl⟩
  · rintro ⟨t', ⟨rfl, rfl⟩, rfl⟩
    exact ⟨rfl, rfl⟩

/-- A body that breaks at once, over `0..2`: unrolled, its `break` leaves the scope the loop
was expanded into, while the `RangeLoop` ends normally. -/
theorem range_expand_runs_host_loop_break :
    (∃ scope ops, rangeExpand Scope.root (constantIndex 0) (constantIndex 2) true
        (fun context _ => breakExpand context) = some scope ∧
      scope.operations = Scope.root.operations ++ ops ∧ Exec indexMachine (.seq ops) 7 7 .broke) ∧
    ∃ s', Exec indexMachine (.one (.branch (.rangeLoop
      (Scope.root.child.createLocalUndeclared (Item.new .uint)).1 (constantIndex 0) (constantIndex 2)
      none (breakExpand (Scope.root.child.createLocalUndeclared (Item.new .uint)).2)))) 7 s'
      .normal := by
  obtain ⟨hunrolled, -, hruntime⟩ := range_expand_runs_host_loop indexMachine Scope.root
    (fun context _ => breakExpand context) (fun _ s s' o => s' = s ∧ o = .broke)
    (constantIndex 0) (constantIndex 2) (fun _ => Emits.break_expand) rfl breakBody_runs
    (fun _ _ => rfl) (fun _ _ _ => rfl) (fun _ _ => rfl) (fun _ _ _ _ h => h.1 ▸ rfl)
  obtain ⟨scope, ops, hexpand, hops, hrun⟩ := hunrolled 0 2 rfl rfl
  refine ⟨⟨scope, ops, hexpand, hops, hrun ▸ .stop ⟨rfl, rfl⟩ nofun⟩, ?_⟩
  obtain ⟨_, hloop⟩ := (hruntime 7 (by decide) (by decide)).2 7 .normal
    ⟨.broke, .stop ⟨rfl, rfl⟩ nofun, rfl⟩
  exact ⟨_, hloop⟩

/-- The body that breaks at once, over `(0..7).step_by(3)`. -/
theorem range_stepped_expand_runs_host_loop_break :
    (∃ scope ops, rangeSteppedExpand Scope.root (constantIndex 0) (constantIndex 7)
        (constantIndex 3) true (fun context _ => breakExpand context) = some scope ∧
      scope.operations = Scope.root.operations ++ ops ∧ Exec indexMachine (.seq ops) 7 7 .broke) ∧
    ∃ s', Exec indexMachine (.one (.branch (.rangeLoop
      (Scope.root.child.createLocalUndeclared (Item.new .uint)).1 (constantIndex 0) (constantIndex 7)
      (some (constantIndex 3))
      (breakExpand (Scope.root.child.createLocalUndeclared (Item.new .uint)).2)))) 7 s'
      .normal := by
  obtain ⟨hunrolled, -, hruntime⟩ := range_stepped_expand_runs_host_loop indexMachine Scope.root
    (fun context _ => breakExpand context) (fun _ s s' o => s' = s ∧ o = .broke)
    (constantIndex 0) (constantIndex 7) (fun _ => Emits.break_expand) rfl breakBody_runs
    (fun _ _ => rfl) (fun _ _ _ => rfl) (fun _ _ => rfl) (fun _ _ _ _ h => h.1 ▸ rfl)
    (constantIndex 3) (fun _ _ => rfl) (fun _ _ _ _ h => h.1 ▸ rfl)
  obtain ⟨scope, ops, hexpand, hops, hrun⟩ := hunrolled 0 7 3 [0, 3, 6] rfl rfl rfl rfl
  refine ⟨⟨scope, ops, hexpand, hops, hrun ▸ .stop ⟨rfl, rfl⟩ nofun⟩, ?_⟩
  obtain ⟨_, hloop⟩ := (hruntime 7 [0, 3, 6] rfl (by decide)).2 7 .normal
    ⟨.broke, .stop ⟨rfl, rfl⟩ nofun, rfl⟩
  exact ⟨_, hloop⟩

end CubeCL.Frontend
