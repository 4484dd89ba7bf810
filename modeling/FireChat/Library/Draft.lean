import Mathlib.Data.List.Basic

/-! A draft that is typed, sent and cleared. Sending copies the draft and clearing
forgets it, so text survives exactly when the two are in step. -/

namespace Draft

variable {α : Type}

inductive Event (α : Type) where
  | typed (chunk : List α)
  | sent
  | cleared

structure State (α : Type) where
  text : List α
  outbox : List α

def step (state : State α) : Event α → State α
  | .typed chunk => { state with text := state.text ++ chunk }
  | .sent => { state with outbox := state.outbox ++ state.text }
  | .cleared => { state with text := [] }

def after (state : State α) (events : List (Event α)) : State α := events.foldl step state

@[simp] theorem after_cons (state : State α) (event : Event α) (events : List (Event α)) :
    after state (event :: events) = after (step state event) events := rfl

theorem after_append (state : State α) (first last : List (Event α)) :
    after state (first ++ last) = after (after state first) last :=
  List.foldl_append ..

/-- All that has been sent, and what is left. -/
def State.all (state : State α) : List α := state.outbox ++ state.text

def Event.chunk : Event α → List α
  | .typed chunk => chunk
  | .sent | .cleared => []

def Clears (events : List (Event α)) : Prop := .cleared ∈ events

/-- How often the draft is sent before it is cleared next. -/
def sends : List (Event α) → Nat
  | [] | .cleared :: _ => 0
  | .sent :: events => sends events + 1
  | .typed _ :: events => sends events

/-- Each chunk that is going to be cleared is sent once before. -/
def SentOnce : List (Event α) → Prop
  | [] => True
  | .typed _ :: events => (Clears events → sends events = 1) ∧ SentOnce events
  | .sent :: events | .cleared :: events => SentOnce events

/-- Each sending is going to clear the draft. -/
def Awaited : List (Event α) → Prop
  | [] => True
  | .sent :: events => Clears events ∧ Awaited events
  | .typed _ :: events | .cleared :: events => Awaited events

def Event.blank : Event α → Event α
  | .typed _ => .typed []
  | event => event

@[simp] theorem clears_cons {event : Event α} {events : List (Event α)} :
    Clears (event :: events) ↔ event = .cleared ∨ Clears events := by
  simp [Clears, eq_comm]

/-- A draft that is sent once before each clearing reaches the outbox once. The
second part is about a draft that has been sent already. -/
private theorem after_all {events : List (Event α)} (once : SentOnce events) (awaited : Awaited events) (state : State α) :
    (state.text = [] ∨ (Clears events → sends events = 1) →
      (after state events).all = state.all ++ events.flatMap Event.chunk) ∧
    (Clears events → sends events = 0 → (after state events).all = state.outbox ++ events.flatMap Event.chunk) := by
  induction events generalizing state with
  | nil =>
    refine ⟨?_, ?_⟩
    · intro _
      simp [after]
    · intro clears
      cases clears
  | cons event events ih =>
    cases event with
    | typed chunk =>
      obtain ⟨here, once⟩ := once
      refine ⟨?_, ?_⟩
      · intro _
        have later := (ih once awaited (step state (.typed chunk))).1 (Or.inr here)
        simpa [after, step, State.all, Event.chunk] using later
      · intro clears unsent
        have clears : Clears events := by simpa using clears
        simp only [sends, here clears] at unsent
        omega
    | sent =>
      obtain ⟨clears, awaited⟩ := awaited
      refine ⟨?_, ?_⟩
      · intro fresh
        rcases fresh with empty | single
        · have later := (ih once awaited (step state .sent)).1 (Or.inl empty)
          simpa [after, step, State.all, Event.chunk, empty] using later
        · have unsent : sends events = 0 := by
            have counted := single (by simp [clears])
            simp only [sends] at counted
            omega
          have later := (ih once awaited (step state .sent)).2 clears unsent
          simpa [after, step, State.all, Event.chunk] using later
      · intro _ unsent
        simp only [sends] at unsent
        omega
    | cleared =>
      have later := (ih once awaited (step state .cleared)).1 (Or.inl rfl)
      refine ⟨?_, ?_⟩
      · intro fresh
        rcases fresh with empty | single
        · simpa [after, step, State.all, Event.chunk, empty] using later
        · have counted := single (by simp)
          simp only [sends] at counted
          omega
      · intro _ _
        simpa [after, step, State.all, Event.chunk] using later

/-- Everything typed is sent once or still there, if each chunk that is cleared is sent once before. -/
theorem all_of_sentOnce {events : List (Event α)} (once : SentOnce events) (awaited : Awaited events) :
    (after ⟨[], []⟩ events).all = events.flatMap Event.chunk :=
  (after_all once awaited ⟨[], []⟩).1 (Or.inl rfl)

@[simp] theorem clears_blank {events : List (Event α)} : Clears (events.map Event.blank) ↔ Clears events := by
  unfold Clears
  rw [List.mem_map]
  refine ⟨?_, ?_⟩
  · intro ⟨event, member, same⟩
    cases event <;> cases same
    exact member
  · intro member
    exact ⟨.cleared, member, rfl⟩

@[simp] theorem flatMap_chunk_blank (events : List (Event α)) : (events.map Event.blank).flatMap Event.chunk = [] := by
  induction events with
  | nil => rfl
  | cons event events ih => cases event <;> simpa [Event.blank, Event.chunk] using ih

@[simp] theorem sends_blank (events : List (Event α)) : sends (events.map Event.blank) = sends events := by
  induction events with
  | nil => rfl
  | cons event events ih => cases event <;> simp [sends, Event.blank, ih]

@[simp] theorem sentOnce_blank {events : List (Event α)} : SentOnce (events.map Event.blank) ↔ SentOnce events := by
  induction events with
  | nil => rfl
  | cons event events ih => cases event <;> simp [SentOnce, Event.blank, ih]

/-- Nothing comes of an empty draft into which nothing is typed. -/
private theorem after_empty (events : List (Event α)) {state : State α} (empty : state.text = []) :
    (after state (events.map Event.blank)).all = state.outbox := by
  induction events generalizing state with
  | nil => simp [after, State.all, empty]
  | cons event events ih =>
    rw [List.map_cons, after_cons]
    cases event with
    | typed chunk => exact ih (by simp [step, empty, Event.blank])
    | sent =>
      have kept : (step state (Event.sent).blank).outbox = state.outbox := by simp [step, Event.blank, empty]
      rw [← kept]
      exact ih empty
    | cleared => exact ih rfl

/-- A draft that is going to be cleared is copied as often as it is sent before. -/
private theorem after_blank_length (events : List (Event α)) (state : State α) (clears : Clears events) :
    (after state (events.map Event.blank)).all.length = state.outbox.length + sends events * state.text.length := by
  induction events generalizing state with
  | nil => cases clears
  | cons event events ih =>
    rw [List.map_cons, after_cons]
    cases event with
    | typed chunk =>
      have same : step state (Event.typed chunk).blank = state := by simp [step, Event.blank]
      rw [same]
      exact ih state (by simpa using clears)
    | sent =>
      rw [ih _ (by simpa using clears)]
      simp only [step, Event.blank, sends, List.length_append, Nat.succ_mul]
      omega
    | cleared =>
      rw [after_empty events rfl]
      simp [step, Event.blank, sends]

/-- One letter, typed where the chunk was, shows how often the chunk is copied. -/
private theorem sends_of_all (past : List (Event α)) {rest : List (Event α)} (clears : Clears rest)
    {letter : α} (kept : (after ⟨[], []⟩ (past.map Event.blank ++ .typed [letter] :: rest.map Event.blank)).all = [letter]) :
    sends rest = 1 := by
  have before : after ⟨[], []⟩ (past.map Event.blank) = (⟨[], []⟩ : State α) := by
    have nothing := after_empty past (rfl : (⟨[], []⟩ : State α).text = [])
    obtain ⟨outbox, text⟩ := List.append_eq_nil_iff.mp nothing
    cases reached : after ⟨[], []⟩ (past.map Event.blank)
    simp_all
  have lengths := congrArg List.length kept
  rw [after_append, before, after_cons, after_blank_length rest _ clears] at lengths
  simpa [step] using lengths

/-- The condition is needed when the chunks may be any: a single letter shows where it fails. -/
theorem sentOnce_of_all {events : List (Event α)}
    (kept : ∀ past chunk rest, events = past ++ .typed chunk :: rest → ∃ letter,
      (after ⟨[], []⟩ (past.map Event.blank ++ .typed [letter] :: rest.map Event.blank)).all = [letter]) : SentOnce events := by
  suffices suffixes : ∀ rest past, events = past ++ rest → SentOnce rest from suffixes events [] rfl
  intro rest
  induction rest with
  | nil =>
    intro _ _
    trivial
  | cons event rest ih =>
    intro past split
    have later := ih (past ++ [event]) (by simp [split])
    cases event with
    | typed chunk =>
      obtain ⟨letter, kept⟩ := kept past chunk rest split
      exact ⟨fun clears => sends_of_all past clears kept, later⟩
    | sent | cleared => exact later

end Draft
