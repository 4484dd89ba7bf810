import FireChat.Proofs.Addressing

/-! The two summaries of a pair. Both are overwritten by every call, in whatever
order Firestore answers, so each holds what was written to it last. -/

namespace FireChat.Delivery

open Replay

variable {registered : String → Prop} {verdict : Nat → Write → Option NSError} {events : List Event} {state : State}

private def shown (requests : List Request) (call : Nat) : Option Document :=
  requests[call]?.map fun request => ⟨request.data, call⟩

/-- The summaries of a run show the writes answered so far, by calls that the run started. -/
private structure Shows (past : List Event) (state : State) : Prop where
  requests : state.requests = past.flatMap Event.requests
  started : ∀ answer ∈ past.flatMap Event.answered, answer.1 < (past.flatMap Event.requests).length
  summaries : ∀ owner partner, state.recent owner partner =
    (lastWriter past owner partner).bind (shown (past.flatMap Event.requests))

private theorem shows_initial : Shows [] initial := by
  refine ⟨rfl, by simp, ?_⟩
  intro owner partner
  rfl

private theorem lastWriter_started {past : List Event} {event : Event}
    (started : ∀ answer ∈ past.flatMap Event.answered, answer.1 < (past.flatMap Event.requests).length)
    (quiet : event.answered = []) (owner partner : String) :
    (lastWriter (past ++ [event]) owner partner).bind (shown ((past ++ [event]).flatMap Event.requests)) =
      (lastWriter past owner partner).bind (shown (past.flatMap Event.requests)) := by
  have grown : (past ++ [event]).flatMap Event.requests = past.flatMap Event.requests ++ event.requests := by simp
  have answers : (past ++ [event]).flatMap Event.answered = past.flatMap Event.answered := by simp [quiet]
  have known : ∀ answer ∈ past.flatMap Event.answered,
      (past.flatMap Event.requests ++ event.requests)[answer.1]? = (past.flatMap Event.requests)[answer.1]? :=
    fun answer member => List.getElem?_append_left (started answer member)
  have same : ∀ answer ∈ past.flatMap Event.answered,
      summaryOf (past.flatMap Event.requests ++ event.requests) answer = summaryOf (past.flatMap Event.requests) answer := by
    intro answer member
    have lookup := known answer member
    rcases answer with ⟨call, write⟩
    cases write <;> simp only [summaryOf, lookup]
  have writer : lastWriter (past ++ [event]) owner partner = lastWriter past owner partner := by
    rw [lastWriter, answers, grown, latest_congr _ fun answer member => by rw [same answer member], lastWriter]
  rw [writer, grown]
  cases found : lastWriter past owner partner with
  | none => rfl
  | some call =>
    obtain ⟨answer, latest, rfl⟩ := Option.map_eq_some_iff.mp found
    simp only [Option.bind_some, shown, known answer (latest_eq_some _ latest).1]

private theorem lastWriter_answered (past : List Event) (call : Nat) (write : Write) (owner partner : String) :
    lastWriter (past ++ [.answer call write]) owner partner =
      if summaryOf (past.flatMap Event.requests) (call, write) = some (owner, partner) then some call
      else lastWriter past owner partner := by
  have requests : (past ++ [Event.answer call write]).flatMap Event.requests = past.flatMap Event.requests := by
    simp [Event.requests]
  have answers : (past ++ [Event.answer call write]).flatMap Event.answered =
      past.flatMap Event.answered ++ [(call, write)] := by
    simp [Event.answered]
  rw [lastWriter, requests, answers, latest_concat]
  split <;> rfl

private theorem accept_recent (state : State) (call : Nat) {request : Request} (write : Write)
    (asked : state.requests[call]? = some request) (messages : Messages)
    (stored : messages = state.accept call request write) (owner partner : String) :
    (messages ⟨owner, recentMessages⟩).document partner =
      if summaryOf state.requests (call, write) = some (owner, partner) then some ⟨request.data, call⟩
      else state.recent owner partner := by
  subst stored
  by_cases here : (⟨owner, recentMessages⟩ : Path) = request.path write
  · rw [here, State.accept_self, State.recent, here]
    cases write with
    | sent | received =>
      rw [Request.store, Collection.document_addDocument]
      simp [summaryOf]
    | recentSent | recentReceived =>
      rw [Request.store, Collection.document_setData]
      simp only [Request.path, Path.mk.injEq] at here
      simp [summaryOf, asked, here.1, eq_comm]
  · rw [State.accept_of_ne _ _ here]
    have elsewhere : summaryOf state.requests (call, write) ≠ some (owner, partner) := by
      intro same
      apply here
      cases write <;> simp_all [summaryOf, Request.path]
    rw [if_neg elsewhere]
    rfl

private theorem Shows.quiet {past : List Event} {next : State} {event : Event} (shows : Shows past state)
    (extended : next.requests = state.requests ++ event.requests) (quiet : event.answered = [])
    (untouched : next.messages = state.messages) : Shows (past ++ [event]) next := by
  refine ⟨?_, ?_, ?_⟩
  · rw [extended, shows.requests]
    simp
  · intro answer member
    have inside := shows.started answer (by simpa [quiet] using member)
    simp only [List.flatMap_append, List.length_append]
    omega
  · intro owner partner
    rw [lastWriter_started shows.started quiet, ← shows.summaries, State.recent, untouched]
    rfl

private theorem Shows.step {past : List Event} {next : State} {event : Event} (shows : Shows past state)
    (stepped : Step accepts state event next) : Shows (past ++ [event]) next := by
  have extended := stepped.requests
  cases stepped with
  | ignored => exact shows.quiet extended rfl rfl
  | begun => exact shows.quiet extended rfl rfl
  | rejected found held refused => cases refused
  | called found held => exact shows.quiet extended rfl rfl
  | @accepted call write upload found held taken =>
    have asked := found_request found
    refine ⟨?_, ?_, ?_⟩
    · rw [extended, shows.requests]
      simp
    · intro answer member
      simp only [List.flatMap_append, List.mem_append, List.flatMap_singleton, Event.answered, List.mem_singleton] at member
      rcases member with old | rfl
      · have inside := shows.started answer old
        simp only [List.flatMap_append, List.length_append]
        omega
      · have inside := (List.getElem?_eq_some_iff.mp asked).1
        simp only [List.flatMap_append, List.length_append, ← shows.requests]
        omega
    · intro owner partner
      have requests : (past ++ [Event.answer call write]).flatMap Event.requests = state.requests := by
        rw [shows.requests]
        simp [Event.requests]
      have stored := accept_recent state call write asked _ rfl owner partner
      rw [State.recent, stored, lastWriter_answered, requests, ← shows.requests]
      split
      · simp [shown, asked]
      · rw [shows.summaries, shows.requests]

private theorem run_shows (ran : run accepts initial events = some state) : Shows events state :=
  Transition.run_history (fun _ _ _ _ shows (_ : True) stepped => Shows.step shows (.of_step stepped))
    shows_initial (fun _ _ => trivial) ran

/-- Both summaries of a pair hold one payload, as recent as every message of the pair. -/
def State.Agree (state : State) (first second : String) : Prop :=
  ∃ own other time, state.recent first second = some own ∧ state.recent second first = some other ∧
    own.data = other.data ∧ own.data.timestamp? "timestamp" = some time ∧
    ∀ data, data ∈ (state.log first second).contents ∨ data ∈ (state.log second first).contents →
      ∃ earlier, data.timestamp? "timestamp" = some earlier ∧ earlier ≤ time

theorem State.Agree.same_data {first second : String} {own mirror : Document} (agree : state.Agree first second)
    (summary : state.recent first second = some own) (mirrored : state.recent second first = some mirror) :
    own.data = mirror.data := by
  obtain ⟨_, _, _, held, held', same, _⟩ := agree
  obtain rfl := Option.some.inj (summary.symm.trans held)
  obtain rfl := Option.some.inj (mirrored.symm.trans held')
  exact same

section clocks

variable {first second : Request} {call other : Nat}

private theorem clocked_lt (clocked : Clocked events)
    (found : (events.flatMap Event.requests)[call]? = some first)
    (later : (events.flatMap Event.requests)[other]? = some second) (before : call < other) :
    first.timestamp < second.timestamp := by
  obtain ⟨inside, rfl⟩ := List.getElem?_eq_some_iff.mp found
  obtain ⟨bound, rfl⟩ := List.getElem?_eq_some_iff.mp later
  have ordered := List.pairwise_iff_getElem.mp clocked call other (by simpa using inside) (by simpa using bound) before
  simpa only [List.getElem_map] using ordered

private theorem clocked_le (clocked : Clocked events)
    (found : (events.flatMap Event.requests)[call]? = some first)
    (later : (events.flatMap Event.requests)[other]? = some second) :
    call ≤ other ↔ first.timestamp ≤ second.timestamp := by
  refine ⟨?_, ?_⟩
  · intro before
    rcases Nat.lt_or_eq_of_le before with strictly | rfl
    · exact le_of_lt (clocked_lt clocked found later strictly)
    · obtain rfl := Option.some.inj (found.symm.trans later)
      exact le_refl _
  · intro ordered
    by_contra after
    exact not_lt_of_ge ordered (clocked_lt clocked later found (by omega))

private theorem clocked_injective (clocked : Clocked events)
    (found : (events.flatMap Event.requests)[call]? = some first)
    (same : (events.flatMap Event.requests)[other]? = some first) : call = other := by
  have forward := (clocked_le clocked found same).mpr (le_refl _)
  have backward := (clocked_le clocked same found).mpr (le_refl _)
  omega

end clocks

private theorem Shows.recent_eq_some {past : List Event} (shows : Shows past state) {owner partner : String} {document : Document} :
    state.recent owner partner = some document ↔
      ∃ call request, lastWriter past owner partner = some call ∧
        (past.flatMap Event.requests)[call]? = some request ∧ document = ⟨request.data, call⟩ := by
  rw [shows.summaries]
  simp only [Option.bind_eq_some_iff, shown, Option.map_eq_some_iff]
  refine ⟨?_, ?_⟩
  · intro ⟨call, writer, request, asked, written⟩
    exact ⟨call, request, writer, asked, written.symm⟩
  · intro ⟨call, request, writer, asked, written⟩
    exact ⟨call, writer, request, asked, written.symm⟩

/-- Once no step is left, the summaries of a pair agree on its last message exactly
when both were written last by the call that was started last. -/
theorem summaries_agree_iff {registered : String → Prop} (reserved : ¬ registered recentMessages)
    {events : List Event} {state : State} (users : Registered registered events) (clocked : Clocked events)
    (ran : run accepts initial events = some state) (settled : state.Settled)
    {first second : String} (own : registered first) (partner : registered second) :
    state.Agree first second ↔
      ∃ call, Newest (events.flatMap Event.requests) first second call ∧
        lastWriter events first second = some call ∧ lastWriter events second first = some call := by
  have shows := run_shows ran
  have asked := run_requests ran
  refine ⟨?_, ?_⟩
  · intro ⟨document, mirror, time, summary, mirrored, same, sent, latest⟩
    obtain ⟨call, request, writer, found, rfl⟩ := shows.recent_eq_some.mp summary
    obtain ⟨call', request', writer', found', rfl⟩ := shows.recent_eq_some.mp mirrored
    obtain rfl := Decoding.data_injective same
    obtain rfl := clocked_injective clocked found found'
    obtain rfl := Option.some.inj sent
    obtain ⟨stored, foundStored, _, between, data⟩ := stored_between reserved users ran partner (Or.inr summary)
    obtain rfl := Decoding.data_injective data
    refine ⟨call, ⟨⟨request, found, between⟩, ?_⟩, writer, writer'⟩
    intro other request' found' between'
    -- Every message of the pair is in the owner's log, so the summary's time bounds it.
    have requests : ∀ request ∈ state.requests, request.Registered registered := asked ▸ users
    have complete := log_contents first (run_valid ran) (settled_all_landed ran settled) requests
      (fun same => reserved (same ▸ partner))
    have member : request'.data ∈ (state.log first second).contents := by
      rw [complete.mem_iff, asked]
      apply List.mem_map_of_mem
      exact List.mem_filter.mpr ⟨List.mem_of_getElem? found', decide_eq_true between'⟩
    obtain ⟨earlier, carried, bound⟩ := latest _ (Or.inl member)
    obtain rfl := Option.some.inj carried
    exact (clocked_le clocked found' found).mpr bound
  · intro ⟨call, ⟨⟨request, found, between⟩, newest⟩, writer, writer'⟩
    refine ⟨_, _, request.timestamp, shows.recent_eq_some.mpr ⟨call, request, writer, found, rfl⟩,
      shows.recent_eq_some.mpr ⟨call, request, writer', found, rfl⟩, rfl, rfl, ?_⟩
    have bounded : ∀ {owner other data}, registered other →
        (∀ request : Request, request.Between owner other → request.Between first second) →
        data ∈ (state.log owner other).contents →
        ∃ earlier, Fields.timestamp? data "timestamp" = some earlier ∧ earlier ≤ request.timestamp := by
      intro owner other data user pair member
      obtain ⟨⟨id, document⟩, entry, rfl⟩ := List.mem_map.mp member
      obtain ⟨request', found', _, between', data⟩ := stored_between reserved users ran user (Or.inl ⟨id, entry⟩)
      rw [asked] at found'
      refine ⟨request'.timestamp, by rw [data]; rfl, ?_⟩
      exact (clocked_le clocked found' found).mp (newest _ request' found' (pair request' between'))
    intro data member
    rcases member with logged | mirrored
    · exact bounded partner (fun _ between => between) logged
    · exact bounded own (fun _ between => Request.between_comm.mp between) mirrored

def answeredSend : List Event :=
  oneSend ++ [.uploadMessage (some "bob") "hi" ⟨"ann", "", "ann", "Ann", "ann@mail"⟩ ⟨2, 0⟩, .answer 1 .sent, .callback 1 .sent,
    .answer 1 .received, .answer 1 .recentSent, .callback 1 .received, .answer 1 .recentReceived]

theorem answeredSend_registered : Registered (fun uid => uid = "ann" ∨ uid = "bob") answeredSend := by
  intro request member
  obtain rfl | rfl : request = ⟨"hello", "ann", "bob", ⟨1, 0⟩⟩ ∨ request = ⟨"hi", "bob", "ann", ⟨2, 0⟩⟩ := List.mem_pair.mp member
  · exact ⟨Or.inl rfl, Or.inr rfl, by decide⟩
  · exact ⟨Or.inr rfl, Or.inl rfl, by decide⟩

theorem answered_send_agrees : ∃ state, run accepts initial answeredSend = some state ∧ state.Agree "ann" "bob" := by
  have newest : Newest (answeredSend.flatMap Event.requests) "ann" "bob" 1 := by
    refine ⟨⟨_, rfl, Or.inr ⟨rfl, rfl⟩⟩, ?_⟩
    intro other request found _
    have inside := (List.getElem?_eq_some_iff.mp found).1
    exact Nat.le_of_lt_succ inside
  have agree := summaries_agree_iff (by decide) answeredSend_registered (by decide)
    (rfl : run accepts initial answeredSend = some _) (by decide) (Or.inl rfl : "ann" = "ann" ∨ "ann" = "bob") (Or.inr rfl)
  exact ⟨_, rfl, agree.mpr ⟨1, newest, by decide, by decide⟩⟩

/-- Ann and Bob write to each other at once, and the last two summary writes cross. -/
def crossedSends : List Event :=
  [.uploadMessage (some "ann") "hello" ⟨"bob", "", "bob", "Bob", "bob@mail"⟩ ⟨1, 0⟩,
    .uploadMessage (some "bob") "hi" ⟨"ann", "", "ann", "Ann", "ann@mail"⟩ ⟨2, 0⟩,
    .answer 0 .sent, .answer 1 .sent, .callback 0 .sent, .callback 1 .sent,
    .answer 0 .received, .answer 1 .received, .callback 0 .received, .callback 1 .received,
    .answer 0 .recentSent, .answer 1 .recentSent, .answer 1 .recentReceived, .answer 0 .recentReceived]

/-- Ann's inbox ends with Bob's message and Bob's inbox with Ann's older one. -/
theorem crossed_sends_disagree :
    ∃ state, run accepts initial crossedSends = some state ∧ state.Settled ∧ Clocked crossedSends ∧
      Registered (fun uid => uid = "ann" ∨ uid = "bob") crossedSends ∧ ¬ state.Agree "ann" "bob" := by
  refine ⟨_, rfl, by decide, by decide, ?_, ?_⟩
  · -- the same two messages as above
    exact answeredSend_registered
  · intro agree
    have same := agree.same_data (rfl : State.recent _ "ann" "bob" = some ⟨Request.data ⟨"hi", "bob", "ann", ⟨2, 0⟩⟩, 1⟩)
      (rfl : State.recent _ "bob" "ann" = some ⟨Request.data ⟨"hello", "ann", "bob", ⟨1, 0⟩⟩, 0⟩)
    have equal := congrArg Request.message (Decoding.data_injective same)
    exact absurd equal (by decide)

end FireChat.Delivery
