import Mathlib.Data.List.Infix

/-! Finite runs of a partial step function. A step that returns `none` is not
enabled, so a run exists only when every one of its events was. The rules below
are the only inductions over runs that the protocols need. -/

namespace Transition

variable {σ τ ε δ : Type}

def run (step : σ → ε → Option σ) : σ → List ε → Option σ
  | state, [] => some state
  | state, event :: events => (step state event).bind fun next => run step next events

variable {step : σ → ε → Option σ}

theorem run_cons {state : σ} {event : ε} {events : List ε} {final : σ} :
    run step state (event :: events) = some final ↔
      ∃ next, step state event = some next ∧ run step next events = some final := by
  simp only [run, Option.bind_eq_some_iff]

theorem run_append (state : σ) (first last : List ε) :
    run step state (first ++ last) = (run step state first).bind fun middle => run step middle last := by
  induction first generalizing state with
  | nil => rfl
  | cons event events ih =>
    simp only [List.cons_append, run, Option.bind_assoc]
    exact Option.bind_congr fun next _ => ih next

theorem run_concat {start final : σ} {events : List ε} {event : ε} :
    run step start (events ++ [event]) = some final ↔ ∃ state, run step start events = some state ∧ step state event = some final := by
  simp only [run_append, Option.bind_eq_some_iff, run_cons]
  simp [run]

/-- A relation between a run's events so far and its state. The events matter
when a property speaks about the order in which things happened. -/
theorem run_history {allowed : ε → Prop} {holds : List ε → σ → Prop}
    (keeps : ∀ past state event next, holds past state → allowed event →
      step state event = some next → holds (past ++ [event]) next)
    {start final : σ} {events : List ε} (initial : holds [] start)
    (admitted : ∀ event ∈ events, allowed event) (ran : run step start events = some final) :
    holds events final := by
  suffices extended : ∀ rest past state, holds past state → (∀ event ∈ rest, allowed event) →
      run step state rest = some final → holds (past ++ rest) final from
    extended events [] start initial admitted ran
  intro rest
  induction rest with
  | nil =>
    intro past state held _ ran
    cases ran
    simpa using held
  | cons event rest ih =>
    intro past state held admitted ran
    obtain ⟨next, stepped, ran⟩ := run_cons.mp ran
    have kept := keeps past state event next held (admitted event (by simp)) stepped
    simpa using ih (past ++ [event]) next kept (fun other member => admitted other (by simp [member])) ran

theorem run_invariant {allowed : ε → Prop} {holds : σ → Prop}
    (keeps : ∀ state event next, holds state → allowed event → step state event = some next → holds next)
    {start final : σ} {events : List ε} (initial : holds start)
    (admitted : ∀ event ∈ events, allowed event) (ran : run step start events = some final) :
    holds final :=
  @run_history σ ε step allowed (fun _ state => holds state) (fun _ => keeps) start final events initial admitted ran

/-- A run whose every step is enabled by what holds of the run so far goes through to its end. -/
theorem run_total {holds : List ε → σ → Prop} {start : σ} {events : List ε} (initial : holds [] start)
    (advances : ∀ past event rest state, events = past ++ event :: rest → holds past state →
      ∃ next, step state event = some next ∧ holds (past ++ [event]) next) :
    ∃ final, run step start events = some final ∧ holds events final := by
  suffices extended : ∀ rest past state, events = past ++ rest → holds past state →
      ∃ final, run step state rest = some final ∧ holds events final from extended events [] start rfl initial
  intro rest
  induction rest with
  | nil =>
    intro past state split held
    refine ⟨state, rfl, ?_⟩
    rw [split, List.append_nil]
    exact held
  | cons event rest ih =>
    intro past state split held
    obtain ⟨next, stepped, kept⟩ := advances past event rest state split held
    obtain ⟨final, ran, holds⟩ := ih (past ++ [event]) next (by simp [split]) kept
    exact ⟨final, run_cons.mpr ⟨next, stepped, ran⟩, holds⟩

/-- A map of states and events that commutes with one step commutes with runs. -/
theorem run_map {mapped : τ → δ → Option τ} (onState : σ → τ) (onEvent : ε → δ)
    (commutes : ∀ state event, mapped (onState state) (onEvent event) = (step state event).map onState)
    (start : σ) (events : List ε) :
    run mapped (onState start) (events.map onEvent) = (run step start events).map onState := by
  induction events generalizing start with
  | nil => rfl
  | cons event events ih =>
    simp only [List.map_cons, run, commutes]
    cases step start event with
    | none => rfl
    | some next => exact ih next

/-- A component of the state runs on its share of the events. -/
theorem run_component {mapped : τ → δ → Option τ} (onState : σ → τ) (onEvent : ε → List δ)
    (component : ∀ state event next, step state event = some next →
      run mapped (onState state) (onEvent event) = some (onState next))
    {start final : σ} {events : List ε} (ran : run step start events = some final) :
    run mapped (onState start) (events.flatMap onEvent) = some (onState final) := by
  induction events generalizing start with
  | nil => cases ran; rfl
  | cons event events ih =>
    obtain ⟨next, stepped, ran⟩ := run_cons.mp ran
    rw [List.flatMap_cons, run_append, component start event next stepped]
    exact ih ran

/-- The property holds in every state that the run passes through. -/
def Throughout (step : σ → ε → Option σ) (holds : σ → Prop) (start : σ) (events : List ε) : Prop :=
  ∀ past state, past <+: events → run step start past = some state → holds state

/-- Every step of the run meets a condition on its event and the state before it. -/
def Stepwise (step : σ → ε → Option σ) (meets : σ → ε → Prop) : σ → List ε → Prop
  | _, [] => True
  | state, event :: events =>
    meets state event ∧ ∀ next, step state event = some next → Stepwise step meets next events

theorem stepwise_cons {meets : σ → ε → Prop} {start next : σ} {event : ε} {events : List ε}
    (stepped : step start event = some next) :
    Stepwise step meets start (event :: events) ↔ meets start event ∧ Stepwise step meets next events := by
  simp [Stepwise, stepped]

/-- An invariant that each step keeps under a condition on it holds after a run whose steps meet the condition. -/
theorem stepwise_invariant {holds : σ → Prop} {meets : σ → ε → Prop}
    (keeps : ∀ state event next, holds state → meets state event → step state event = some next → holds next)
    {start final : σ} {events : List ε} (initial : holds start) (met : Stepwise step meets start events)
    (ran : run step start events = some final) : holds final := by
  induction events generalizing start with
  | nil => cases ran; exact initial
  | cons event events ih =>
    obtain ⟨next, stepped, ran⟩ := run_cons.mp ran
    exact ih (keeps start event next initial met.1 stepped) (met.2 next stepped) ran

/-- A run whose steps all meet a condition goes through, if the condition enables a step. -/
theorem stepwise_total {holds : σ → Prop} {meets : σ → ε → Prop}
    (advances : ∀ state event, holds state → meets state event → ∃ next, step state event = some next ∧ holds next)
    {start : σ} {events : List ε} (initial : holds start) (met : Stepwise step meets start events) :
    ∃ final, run step start events = some final ∧ holds final := by
  induction events generalizing start with
  | nil => exact ⟨start, rfl, initial⟩
  | cons event events ih =>
    obtain ⟨next, stepped, kept⟩ := advances start event initial met.1
    obtain ⟨final, ran, held⟩ := ih kept (met.2 next stepped)
    exact ⟨final, run_cons.mpr ⟨next, stepped, ran⟩, held⟩

theorem throughout_cons {holds : σ → Prop} {start next : σ} {event : ε} {events : List ε}
    (stepped : step start event = some next) :
    Throughout step holds start (event :: events) ↔ holds start ∧ Throughout step holds next events := by
  refine ⟨?_, ?_⟩
  · intro always
    refine ⟨always [] start (by simp) rfl, ?_⟩
    intro past state shorter ran
    apply always (event :: past) state (List.cons_prefix_cons.mpr ⟨rfl, shorter⟩)
    exact run_cons.mpr ⟨next, stepped, ran⟩
  · intro ⟨first, rest⟩ past state shorter ran
    cases past with
    | nil => cases ran; exact first
    | cons other past =>
      obtain ⟨rfl, inside⟩ := List.cons_prefix_cons.mp shorter
      obtain ⟨middle, same, ran⟩ := run_cons.mp ran
      cases stepped.symm.trans same
      exact rest past state inside ran

/-- If one step keeps a property exactly when it meets a condition, the property
holds throughout a run exactly when every step of the run meets the condition.
`always` is an invariant that the exactness of one step may rely on. -/
theorem throughout_iff {allowed : ε → Prop} {always holds : σ → Prop} {meets : σ → ε → Prop}
    (keeps : ∀ state event next, always state → allowed event → step state event = some next → always next)
    (exact_step : ∀ state event next, always state → holds state → allowed event → step state event = some next →
      (holds next ↔ meets state event))
    {start final : σ} {events : List ε} (sound : always start) (initial : holds start)
    (admitted : ∀ event ∈ events, allowed event) (ran : run step start events = some final) :
    Throughout step holds start events ↔ Stepwise step meets start events := by
  induction events generalizing start with
  | nil =>
    refine ⟨fun _ => trivial, ?_⟩
    intro _ past state shorter ran
    cases List.prefix_nil.mp shorter
    cases ran
    exact initial
  | cons event events ih =>
    obtain ⟨next, stepped, ran⟩ := run_cons.mp ran
    have legal := admitted event (by simp)
    have later : ∀ other ∈ events, allowed other := fun other member => admitted other (by simp [member])
    have step_iff := exact_step start event next sound initial legal stepped
    have next_sound := keeps start event next sound legal stepped
    rw [throughout_cons stepped]
    refine ⟨?_, ?_⟩
    · intro ⟨_, rest⟩
      have reached : holds next := rest [] next (by simp) rfl
      refine ⟨step_iff.mp reached, ?_⟩
      intro other same
      cases stepped.symm.trans same
      exact (ih next_sound reached later ran).mp rest
    · intro ⟨met, rest⟩
      exact ⟨initial, (ih next_sound (step_iff.mpr met) later ran).mpr (rest next stepped)⟩

/-- The same, where the condition is on an event and the events before it. -/
theorem throughout_history_iff {allowed : ε → Prop} {always : List ε → σ → Prop} {holds : σ → Prop} {meets : List ε → ε → Prop}
    (keeps : ∀ past state event next, always past state → allowed event → step state event = some next →
      always (past ++ [event]) next)
    (exact_step : ∀ past state event next, always past state → holds state → allowed event → step state event = some next →
      (holds next ↔ meets past event))
    {start final : σ} {events : List ε} (sound : always [] start) (initial : holds start)
    (admitted : ∀ event ∈ events, allowed event) (ran : run step start events = some final) :
    Throughout step holds start events ↔ ∀ past event, past ++ [event] <+: events → meets past event := by
  induction events using List.reverseRecOn generalizing final with
  | nil =>
    refine ⟨?_, ?_⟩
    · intro _ past event shorter
      simp at shorter
    · intro _ past state shorter ran
      cases List.prefix_nil.mp shorter
      cases ran
      exact initial
  | append_singleton events last ih =>
    obtain ⟨state, before, stepped⟩ := run_concat.mp ran
    have earlier : ∀ event ∈ events, allowed event := fun event member => admitted event (List.mem_append_left _ member)
    have legal : allowed last := admitted last (List.mem_append_right _ (List.mem_singleton_self _))
    have kept := run_history keeps sound earlier before
    have shorter_iff := ih earlier before
    refine ⟨?_, ?_⟩
    · intro always past event shorter
      have held : Throughout step holds start events :=
        fun past state shorter => always past state (shorter.trans (List.prefix_append _ _))
      rcases List.prefix_concat_iff.mp shorter with whole | inside
      · obtain ⟨rfl, same⟩ := List.append_inj' whole rfl
        obtain rfl := List.singleton_inj.mp same
        have reached := held past state (List.prefix_refl _) before
        exact (exact_step past state event final kept reached legal stepped).mp (always _ final (List.prefix_refl _) ran)
      · exact shorter_iff.mp held past event inside
    · intro met
      have held := shorter_iff.mpr fun past event inside => met past event (inside.trans (List.prefix_append _ _))
      intro past reached shorter ranPast
      rcases List.prefix_concat_iff.mp shorter with rfl | inside
      · cases ran.symm.trans ranPast
        have state_held := held events state (List.prefix_refl _) before
        exact (exact_step events state last final kept state_held legal stepped).mpr (met events last (List.prefix_refl _))
      · exact held past reached inside ranPast

end Transition
