import FireChat.Proofs.Session

/-! The inbox of one undisturbed session against the query result. The dictionary
keeps what was answered last, the result what was delivered last. -/

namespace FireChat.Inbox

open Replay

def Event.Loads : Event → Prop
  | .snapshot .. | .reply _ _ (some _) => True
  | _ => False

/-- The delivered changes, in the order in which their lookups are answered. -/
def answers (events : List Event) : List Delivered :=
  (answered events).filterMap fun number => (delivered events)[number]?

def lastAnswered (events : List Event) (partner : String) : Option Delivered :=
  latest Delivered.documentID (.named partner) (answers events)

/-- The dictionary has one entry for every document of the result, with its content, and no other. -/
def Converged (controller : ConversationsController) (result : QueryResult) : Prop :=
  (∀ document ∈ result.list, ∃ partner, document.documentID = .named partner) ∧
    ∀ partner, (controller.conversationsDictionary.lookup partner).map (·.message.content) =
      (result.find (.named partner)).map (·.data.content)

variable {uid : String} {past : List Event} {state next : State} {event : Event}

private theorem Event.Loads.fetches (loads : event.Loads) : event.Fetches := by
  cases event with
  | signIn | authenticationComplete | logout => cases loads
  | snapshot | reply => trivial

private theorem sources_eq_answers (loads : ∀ event ∈ past, event.Loads) : sources past = answers past := by
  have numbers : answered past = (past.flatMap Event.replied).map Prod.fst := by
    rw [answered, List.map_flatMap]
    apply List.flatMap_congr
    intro event member
    have loads := loads event member
    cases event with
    | signIn | authenticationComplete | logout => cases loads
    | snapshot => rfl
    | reply number target dictionary =>
      cases dictionary with
      | none => cases loads
      | some dictionary => rfl
  rw [answers, numbers, sources, List.filterMap_map]
  rfl

private theorem mem_delivered {delivery : Delivered} (member : delivery ∈ answers past) : delivery ∈ delivered past := by
  obtain ⟨number, _, found⟩ := List.mem_filterMap.mp member
  exact List.mem_of_getElem? found

private theorem mem_answers (session : Session uid past state) (answered : ∀ lookup ∈ state.lookups, lookup.answered = true)
    {delivery : Delivered} (member : delivery ∈ delivered past) : delivery ∈ answers past := by
  obtain ⟨number, found⟩ := List.mem_iff_getElem?.mp member
  have message : (state.lookups[number]?).map Lookup.message = some (delivery.decode (some uid)) := by
    rw [← List.getElem?_map, session.lookups, List.getElem?_map, found]
    rfl
  obtain ⟨lookup, asked, _⟩ := Option.map_eq_some_iff.mp message
  have reached := session.marked number lookup asked (answered lookup (List.mem_of_getElem? asked))
  exact List.mem_filterMap.mpr ⟨number, reached, found⟩

private theorem entry (session : Session uid past state) (loads : ∀ event ∈ past, event.Loads)
    (filed : ∀ delivery ∈ delivered past, FiledFor uid delivery) (target : String) :
    (state.controller.conversationsDictionary.lookup target).map (·.message.content) =
      (lastAnswered past target).map Delivered.content := by
  have answer : (latest partner target (replied uid past)).map Conversation.message =
      (lastAnswered past target).map (Delivered.decode (some uid)) := by
    have byMessage := latest_map Message.chatPartnerId Conversation.message target (replied uid past)
    rw [replied_messages, sources_eq_answers loads, latest_map] at byMessage
    have keys : latest (fun delivery => (Delivered.decode (some uid) delivery).chatPartnerId) target (answers past) =
        lastAnswered past target := by
      apply latest_congr
      intro delivery member
      exact (filed delivery (mem_delivered member)).decode_partner target
    rw [keys] at byMessage
    exact byMessage.symm
  have contents := congrArg (Option.map Message.content) answer
  rw [Option.map_map, Option.map_map] at contents
  rw [session.dictionary]
  exact contents

private theorem lastAnswered_eq_none (session : Session uid past state)
    (answered : ∀ lookup ∈ state.lookups, lookup.answered = true) (partner : String) :
    lastAnswered past partner = none ↔ lastDelivered past partner = none := by
  simp only [lastAnswered, lastDelivered, latest_eq_none]
  refine ⟨?_, ?_⟩
  · intro absent delivery member
    exact absent delivery (mem_answers session answered member)
  · intro absent delivery member
    exact absent delivery (mem_delivered member)

private theorem entry_eq_iff {answer delivery : Option Delivered} (both : answer = none ↔ delivery = none) :
    answer.map Delivered.content =
        (delivery.bind fun delivery => delivery.change.left).map (fun document => document.data.content) ↔
      ∀ change, delivery = some change → change.change.kind ≠ .removed ∧ answer.map Delivered.content = some change.content := by
  cases delivery with
  | none => simp [both.mpr rfl]
  | some delivery =>
    obtain ⟨reply, rfl⟩ := Option.ne_none_iff_exists'.mp (fun absent => nomatch both.mp absent)
    obtain ⟨⟨kind, item, oldIndex, newIndex⟩, now⟩ := delivery
    cases kind <;> simp [Keyed.Change.left, Delivered.content]

/-- Once every lookup is answered, the inbox equals the query result exactly when,
for every partner, the change delivered last removes nothing and the lookup
answered last belongs to a change with the same content. -/
theorem inbox_converges_iff {events : List Event} (loads : ∀ event ∈ events, event.Loads)
    (filed : ∀ event ∈ events, event.Filed) (ran : run (viewDidLoad (some uid)) events = some state)
    (answered : ∀ lookup ∈ state.lookups, lookup.answered = true) :
    ∃ listener, state.listeners = [listener] ∧
      (Converged state.controller listener.result ↔
        ∀ partner delivery, lastDelivered events partner = some delivery → delivery.change.kind ≠ .removed ∧
          (lastAnswered events partner).map Delivered.content = some delivery.content) := by
  have fetches : ∀ event ∈ events, event.Fetches := fun event member => (loads event member).fetches
  have session := run_session fetches ran
  have filed := run_filed fetches filed ran
  obtain ⟨result, only, delivering⟩ := session.listener
  have entries : ∀ partner, (state.controller.conversationsDictionary.lookup partner).map (·.message.content) =
        (result.find (.named partner)).map (·.data.content) ↔
      ∀ delivery, lastDelivered events partner = some delivery → delivery.change.kind ≠ .removed ∧
        (lastAnswered events partner).map Delivered.content = some delivery.content := by
    intro partner
    rw [entry session loads filed, find_delivered delivering]
    exact entry_eq_iff (lastAnswered_eq_none session answered partner)
  have named : ∀ document ∈ result.list, ∃ partner, document.documentID = .named partner := by
    intro document member
    obtain ⟨delivery, delivered, rfl⟩ := result_delivered delivering member
    obtain ⟨partner, named, _⟩ := filed delivery delivered
    exact ⟨partner, named⟩
  refine ⟨_, only, ?_⟩
  refine ⟨?_, ?_⟩
  · intro converged partner
    exact (entries partner).mp (converged.2 partner)
  · intro current
    exact ⟨named, fun partner => (entries partner).mpr (current partner)⟩

def repliesInTurn : List Event :=
  [.snapshot 0 "bob" [summary .added "hello" ⟨1, 0⟩], .snapshot 0 "bob" [summary .modified "again" ⟨2, 0⟩],
    .reply 0 "ann" (some (profile "ann")), .reply 1 "ann" (some (profile "ann"))]

theorem replies_in_turn_converge :
    ∃ state listener, run (viewDidLoad (some "bob")) repliesInTurn = some state ∧ state.listeners = [listener] ∧
      Converged state.controller listener.result := by
  have filed := summary_filed
  obtain ⟨listener, only, converged⟩ := @inbox_converges_iff "bob" _ repliesInTurn (by simp [repliesInTurn, Event.Loads])
    (by simp [repliesInTurn, Event.Filed, filed]) rfl (by decide)
  refine ⟨_, listener, rfl, only, converged.mpr ?_⟩
  intro partner delivery last
  have keyed := (latest_eq_some _ last).2
  obtain rfl : "ann" = partner := by
    rcases List.mem_pair.mp (latest_eq_some _ last).1 with rfl | rfl <;> exact DocumentId.named.inj keyed
  cases last
  exact ⟨by decide, rfl⟩

/-- The lookup that Ann's first message started is answered last. -/
def staleReply : List Event :=
  [.snapshot 0 "bob" [summary .added "hello" ⟨1, 0⟩], .snapshot 0 "bob" [summary .modified "again" ⟨2, 0⟩],
    .reply 1 "ann" (some (profile "ann")), .reply 0 "ann" (some (profile "ann"))]

theorem stale_reply_wins :
    (∀ event ∈ staleReply, event.Loads ∧ event.Filed) ∧
      ∃ state listener, run (viewDidLoad (some "bob")) staleReply = some state ∧ state.listeners = [listener] ∧
        (∀ lookup ∈ state.lookups, lookup.answered = true) ∧ ¬ Converged state.controller listener.result := by
  refine ⟨?_, _, _, rfl, rfl, by decide, ?_⟩
  · have filed := summary_filed
    simp [staleReply, Event.Loads, Event.Filed, filed]
  · intro converged
    exact absurd (converged.2 "ann") (by decide)

end FireChat.Inbox
