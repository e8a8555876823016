import Mathlib.Data.List.Perm.Subperm

/-!
# Computations with a trace

A computation reports events, one after another, and comes to a value or to an error. What it comes
to forgets the events (`Traced.result_bind`), so that a computation is compared with a plain
function by its result. What it reports is described together with its value (`Traced.Ensures`): one
rule for each way to put computations together. A computation that reads a list by index comes to a
value and an index to go on from; `Traced.observe` has the rest of the list in place of that index.
A loop repeats a step that comes to larger indices, up to a bound (`Traced.loop`); what every step
keeps, the loop keeps (`Traced.loop_ensures`).
-/

set_option autoImplicit false
set_option relaxedAutoImplicit false

namespace Metrology

/-- A computation: the events that it reports, and what it comes to. -/
structure Traced (σ ε α : Type) where
  events : List σ
  result : Except ε α

namespace Traced

variable {σ ε α β τ : Type}

/-- A result without events. -/
def ofExcept (result : Except ε α) : Traced σ ε α :=
  ⟨[], result⟩

/-- An event. -/
def report (event : σ) : Traced σ ε Unit :=
  ⟨[event], .ok ()⟩

/-- One computation after another. The second one is not reached when the first fails. -/
protected def bind (first : Traced σ ε α) (next : α → Traced σ ε β) : Traced σ ε β :=
  match first.result with
  | .ok value => ⟨first.events ++ (next value).events, (next value).result⟩
  | .error error => ⟨first.events, .error error⟩

instance : Monad (Traced σ ε) where
  pure value := ofExcept (.ok value)
  bind := Traced.bind

/-- A computation whose value comes with the fact that it is its value. -/
def attach : (run : Traced σ ε α) → Traced σ ε { value : α // run.result = .ok value }
  | ⟨events, .ok value⟩ => ⟨events, .ok ⟨value, rfl⟩⟩
  | ⟨events, .error error⟩ => ⟨events, .error error⟩

/-! ### Results -/

section

variable {φ ψ : Type}

@[simp] theorem ok_bind (value : φ) (next : φ → Except ε ψ) :
    (Except.ok value).bind next = next value := rfl

@[simp] theorem error_bind (error : ε) (next : φ → Except ε ψ) :
    (Except.error error).bind next = .error error := rfl

@[simp] theorem ok_map (value : φ) (function : φ → ψ) :
    (Except.ok value : Except ε φ).map function = .ok (function value) := rfl

@[simp] theorem error_map (error : ε) (function : φ → ψ) :
    (Except.error error).map function = .error error := rfl

@[simp] theorem ok_mapError (value : φ) (function : ε → ψ) :
    (Except.ok value).mapError function = .ok value := rfl

@[simp] theorem error_mapError (error : ε) (function : ε → ψ) :
    (Except.error error : Except ε φ).mapError function = .error (function error) := rfl

end

@[simp] theorem result_ofExcept (result : Except ε α) :
    (ofExcept result : Traced σ ε α).result = result := rfl

@[simp] theorem result_pure (value : α) : (pure value : Traced σ ε α).result = .ok value := rfl

@[simp] theorem result_report (event : σ) : (report event : Traced σ ε Unit).result = .ok () := rfl

@[simp] theorem result_bind (first : Traced σ ε α) (next : α → Traced σ ε β) :
    (first >>= next).result = first.result.bind fun value ↦ (next value).result := by
  show (Traced.bind first next).result = _
  unfold Traced.bind
  cases first.result <;> rfl

theorem bind_of_ok {first : Traced σ ε α} {value : α} (hfirst : first.result = .ok value)
    (next : α → Traced σ ε β) :
    first >>= next = ⟨first.events ++ (next value).events, (next value).result⟩ := by
  show Traced.bind first next = _
  rw [Traced.bind, hfirst]

theorem bind_of_error {first : Traced σ ε α} {error : ε} (hfirst : first.result = .error error)
    (next : α → Traced σ ε β) : first >>= next = ⟨first.events, .error error⟩ := by
  show Traced.bind first next = _
  rw [Traced.bind, hfirst]

@[simp] theorem result_stateT_bind {first : StateT τ (Traced σ ε) α}
    {next : α → StateT τ (Traced σ ε) β} {state : τ} :
    ((first >>= next) state).result =
      (first state).result.bind fun read ↦ (next read.1 read.2).result :=
  result_bind _ _

@[simp] theorem result_stateT_pure {value : α} {state : τ} :
    ((pure value : StateT τ (Traced σ ε) α) state).result = .ok (value, state) := rfl

/-- The facts that come with values are not seen from outside. -/
theorem attach_bind (run : Traced σ ε α) (next : α → Traced σ ε β) :
    (run.attach >>= fun value ↦ next value.1) = run >>= next := by
  obtain ⟨events, result⟩ := run
  cases result <;> rfl

/-! ### Events and values together -/

/-- All events are allowed, and a value that the computation comes to is as required. -/
structure Ensures (run : Traced σ ε α) (allowed : σ → Prop) (required : α → Prop) : Prop where
  events : ∀ event ∈ run.events, allowed event
  value : ∀ value, run.result = .ok value → required value

section

variable {allowed : σ → Prop} {required wanted : α → Prop}

theorem ensures_ofExcept {result : Except ε α} (h : ∀ value, result = .ok value → required value) :
    (ofExcept result : Traced σ ε α).Ensures allowed required :=
  ⟨by simp [ofExcept], h⟩

theorem ensures_error (error : ε) :
    (ofExcept (.error error) : Traced σ ε α).Ensures allowed required :=
  ensures_ofExcept (by simp)

theorem ensures_report {event : σ} (hevent : allowed event) :
    (report event : Traced σ ε Unit).Ensures allowed fun _ ↦ True :=
  ⟨fun _ hother ↦ List.mem_singleton.mp hother ▸ hevent, fun _ _ ↦ trivial⟩

theorem ensures_pure {value : α} (h : required value) :
    (pure value : Traced σ ε α).Ensures allowed required :=
  ensures_ofExcept fun _ hother ↦ Except.ok.inj hother ▸ h

theorem Ensures.mono {run : Traced σ ε α} (hrun : run.Ensures allowed required)
    (h : ∀ value, required value → wanted value) : run.Ensures allowed wanted :=
  ⟨hrun.events, fun value hvalue ↦ h value (hrun.value value hvalue)⟩

theorem Ensures.allow {other : σ → Prop} {run : Traced σ ε α} (hrun : run.Ensures allowed required)
    (h : ∀ event, allowed event → other event) : run.Ensures other required :=
  ⟨fun event hevent ↦ h event (hrun.events event hevent), hrun.value⟩

theorem Ensures.bind {required : β → Prop} {first : Traced σ ε α} {next : α → Traced σ ε β}
    (hfirst : first.Ensures allowed wanted)
    (hnext : ∀ value, first.result = .ok value → wanted value →
      (next value).Ensures allowed required) :
    (first >>= next).Ensures allowed required := by
  cases hresult : first.result with
  | ok value =>
    have hbehind := hnext value hresult (hfirst.value value hresult)
    rw [bind_of_ok hresult]
    refine ⟨fun event hevent ↦ ?_, hbehind.value⟩
    exact (List.mem_append.mp hevent).elim (hfirst.events event) (hbehind.events event)
  | error error =>
    rw [bind_of_error hresult]
    exact ⟨hfirst.events, by simp⟩

end

/-- The same with a state that goes from one computation to the next. -/
theorem ensures_bind {allowed : σ → Prop} {wanted : α × τ → Prop} {required : β × τ → Prop}
    {first : StateT τ (Traced σ ε) α} {next : α → StateT τ (Traced σ ε) β} {state : τ}
    (hfirst : (first state).Ensures allowed wanted)
    (hnext : ∀ value between, wanted (value, between) →
      (next value between).Ensures allowed required) :
    ((first >>= next) state).Ensures allowed required :=
  Ensures.bind hfirst fun read _ hread ↦ hnext read.1 read.2 hread

/-! ### Reading a list by index -/

/-- What a computation comes to, with the rest of a list in place of the index where it starts. -/
def observe (list : List τ) (run : Traced σ ε (α × Nat)) : Except ε (α × List τ) :=
  run.result.map fun read ↦ (read.1, list.drop read.2)

/-- Readers one after another, each described by what it does with the rest of the list. -/
theorem observe_bind {list : List τ} {first : Traced σ ε (α × Nat)}
    {next : α × Nat → Traced σ ε (β × Nat)} {behind : α × List τ → Except ε (β × List τ)}
    (hnext : ∀ value index, first.result = .ok (value, index) →
      observe list (next (value, index)) = behind (value, list.drop index)) :
    observe list (first >>= next) = (observe list first).bind behind := by
  rw [observe, result_bind, observe]
  cases hfirst : first.result with
  | ok read => exact hnext read.1 read.2 hfirst
  | error error => rfl

/-- Increasing indices below a bound are no more than it. -/
theorem length_le_of_increasing {indices : List Nat} {bound : Nat}
    (hincreasing : indices.Pairwise (· < ·)) (hbound : ∀ index ∈ indices, index < bound) :
    indices.length ≤ bound := by
  have hnodup : indices.Nodup := List.Pairwise.imp Nat.ne_of_lt hincreasing
  have hsubset : indices ⊆ List.range bound := fun index hindex ↦
    List.mem_range.mpr (hbound index hindex)
  simpa using (hnodup.subperm hsubset).length_le

/-! ### Loops over an index -/

section

variable {γ : Type}

/-- Below a bound, a step that comes to a next state comes to a larger index. -/
def Progresses (bound : Nat) (step : γ → Nat → Traced σ ε (Option γ × Nat)) : Prop :=
  ∀ state index next behind, index < bound →
    (step state index).result = .ok (some next, behind) → index < behind

/-- A step is repeated while the index is below a bound, until it comes to no next state. -/
def loop (bound : Nat) (step : γ → Nat → Traced σ ε (Option γ × Nat))
    (hstep : Progresses bound step) (state : γ) (index : Nat) : Traced σ ε (γ × Nat) :=
  if _hindex : index < bound then do
    match ← (step state index).attach with
    | ⟨(none, behind), _⟩ => pure (state, behind)
    | ⟨(some next, behind), _hread⟩ => loop bound step hstep next behind
  else pure (state, index)
  termination_by bound - index
  decreasing_by
    have hbehind := hstep _ _ _ _ _hindex _hread
    omega

variable {bound : Nat} {step : γ → Nat → Traced σ ε (Option γ × Nat)}
  (hstep : Progresses bound step)

include hstep

/-- What holds before a step when it holds behind it, holds wherever the loop starts. -/
theorem loop_induction {motive : γ → Nat → Prop}
    (hmotive : ∀ state index, (∀ next behind, index < bound →
      (step state index).result = .ok (some next, behind) → motive next behind) →
        motive state index) (state : γ) (index : Nat) : motive state index := by
  induction hmeasure : bound - index using Nat.strongRecOn generalizing state index with
  | ind measure ih =>
    subst hmeasure
    refine hmotive state index fun next behind hindex hresult ↦ ih _ ?_ next behind rfl
    have hbehind := hstep _ _ _ _ hindex hresult
    omega

theorem loop_of_le {state : γ} {index : Nat} (hindex : bound ≤ index) :
    loop bound step hstep state index = pure (state, index) := by
  rw [loop, dif_neg (Nat.not_lt.mpr hindex)]

theorem loop_of_lt {state : γ} {index : Nat} (hindex : index < bound) :
    loop bound step hstep state index = step state index >>= fun read ↦
      match read.1 with
      | none => pure (state, read.2)
      | some next => loop bound step hstep next read.2 := by
  rw [loop, dif_pos hindex, ← attach_bind (step state index)]
  congr 1
  funext ⟨⟨next?, behind⟩, _⟩
  cases next? <;> rfl

/-- What every step keeps, the loop keeps. -/
theorem loop_ensures {allowed : σ → Prop} (invariant : γ → Nat → Prop)
    (hkeeps : ∀ state index, index < bound → invariant state index →
      (step state index).Ensures allowed fun read ↦ invariant (read.1.getD state) read.2)
    (state : γ) (index : Nat) (hstart : invariant state index) :
    (loop bound step hstep state index).Ensures allowed fun read ↦ invariant read.1 read.2 := by
  induction state, index using loop_induction hstep with
  | hmotive state index ih =>
    rcases Nat.lt_or_ge index bound with hindex | hindex
    · rw [loop_of_lt hstep hindex]
      refine (hkeeps state index hindex hstart).bind fun read hread hkept ↦ ?_
      obtain ⟨next?, behind⟩ := read
      cases next? with
      | none => exact ensures_pure hkept
      | some next => exact ih next behind hindex hread hkept
    · rw [loop_of_le hstep hindex]
      exact ensures_pure hstart

/-- When every step marks its index once, the marks of a loop increase. -/
theorem increasing_marks {mark? : σ → Option Nat} (hmark : ∀ state index, index < bound →
      (step state index).events.filterMap mark? = [index]) (state : γ) (index : Nat) :
    ((loop bound step hstep state index).events.filterMap mark?).Pairwise (· < ·) ∧
      ∀ mark ∈ (loop bound step hstep state index).events.filterMap mark?,
        index ≤ mark ∧ mark < bound := by
  induction state, index using loop_induction hstep with
  | hmotive state index ih =>
    rcases Nat.lt_or_ge index bound with hindex | hindex
    · have hhere := hmark state index hindex
      have hsingle : [index].Pairwise (· < ·) ∧ ∀ mark ∈ [index], index ≤ mark ∧ mark < bound :=
        ⟨List.pairwise_singleton _ _, by simpa using hindex⟩
      rw [loop_of_lt hstep hindex]
      cases hread : (step state index).result with
      | error error => rwa [bind_of_error hread, hhere]
      | ok read =>
        obtain ⟨next?, behind⟩ := read
        rw [bind_of_ok hread, List.filterMap_append, hhere]
        cases next? with
        | none => exact hsingle
        | some next =>
          obtain ⟨hincreasing, hlater⟩ := ih next behind hindex hread
          have hbehind := hstep _ _ _ _ hindex hread
          refine ⟨List.pairwise_cons.mpr ⟨fun mark hmark ↦ ?_, hincreasing⟩, fun mark hmark ↦ ?_⟩
          · exact Nat.lt_of_lt_of_le hbehind (hlater mark hmark).1
          · rcases List.mem_cons.mp hmark with rfl | hother
            · exact ⟨Nat.le_refl _, hindex⟩
            · obtain ⟨hle, hlt⟩ := hlater mark hother
              exact ⟨Nat.le_of_lt (Nat.lt_of_lt_of_le hbehind hle), hlt⟩
    · rw [loop_of_le hstep hindex]
      exact ⟨List.Pairwise.nil, by simp [pure, ofExcept]⟩

end

end Traced

end Metrology
