import FireChat.Proofs.Session

/-! A process of any number of sessions, read off its events. What counts of a delivery
is whose listener made it and who was signed in at that moment. -/

namespace FireChat

/-- The participant whom the decoder took for the signed-in account. -/
def Message.decodedFor (message : Message) : String :=
  if message.isFromCurrentUser then message.fromId else message.toId

namespace Inbox

open Replay

/-- A delivered change: its listener, the listener's owner, and the account that was signed in. -/
structure Source where
  listener : Nat
  owner : String
  account : Option String
  delivered : Delivered

namespace Source

def recipient (source : Source) : String := (source.delivered.change.item.data.string? "toId").getD ""

/-- For whom the closure took the change: the account, if it is one of the two
participants, and else the message's recipient. -/
def reader (source : Source) : String :=
  match source.account with
  | some uid => if uid = source.owner ∨ source.delivered.documentID = .named uid then uid else source.recipient
  | none => source.recipient

def partner (source : Source) : String :=
  match source.delivered.documentID with
  | .named name => if source.reader = source.owner then name else source.owner
  | .auto _ => source.owner

def message (source : Source) : Message := source.delivered.decode source.account

/-- The change comes from the owner's mailbox. -/
def Filed (source : Source) : Prop := FiledFor source.owner source.delivered

end Source

def Event.account (before : Option String) : Event → Option String
  | .signIn uid => some uid
  | .logout thrown => if thrown then before else none
  | _ => before

def Event.deliveries (account : Option String) : Event → List Source
  | .snapshot number owner changes => changes.map (Source.mk number owner account)
  | _ => []

def account (restored : Option String) (events : List Event) : Option String := events.foldl Event.account restored

def deliveries : Option String → List Event → List Source
  | _, [] => []
  | before, event :: events => event.deliveries before ++ deliveries (event.account before) events

/-- The deliveries whose lookups have found a document, in the order of the replies. -/
def filings (restored : Option String) (events : List Event) : List Source :=
  (events.flatMap Event.replied).filterMap fun (number, _) => (deliveries restored events)[number]?

def filedBy (restored : Option String) (events : List Event) (listener : Nat) : List Source :=
  (filings restored events).filter fun source => source.listener = listener

/-- The delivery that a partner's row comes from. Each reply files again whatever its listener has. -/
def lastFiled (restored : Option String) (events : List Event) (partner : String) : Option Source :=
  (filings restored events).reverse.findSome? fun last => latest Source.partner partner (filedBy restored events last.listener)

/-- What the decoder makes of a change, in terms of whose mailbox it came from and who was signed in. -/
theorem Source.Filed.decoded {source : Source} (filed : source.Filed) :
    source.message.decodedFor = source.reader ∧ source.message.chatPartnerId = source.partner := by
  obtain ⟨listener, owner, account, delivered⟩ := source
  obtain ⟨name, named, distinct, data⟩ := filed
  have apart := Ne.symm distinct
  simp only at named data
  simp only [Source.reader, Source.partner, named, Source.message, Source.recipient, Delivered.decode, Message.decodedFor,
    Message.chatPartnerId, Message.init]
  rcases data with ⟨fromId, toId⟩ | ⟨fromId, toId⟩
  · cases account with
    | none => simp [fromId, toId, apart]
    | some uid =>
      by_cases own : uid = owner
      · simp [fromId, toId, own]
      · by_cases other : name = uid
        · simp [fromId, toId, own, other, Ne.symm own]
        · simp [fromId, toId, own, other, apart, Ne.symm own]
  · cases account with
    | none => simp [fromId, toId]
    | some uid =>
      by_cases own : uid = owner
      · simp [fromId, toId, own, apart]
      · by_cases other : name = uid
        · simp [fromId, toId, own, other]
        · simp [fromId, toId, own, other]

variable {restored : Option String} {past : List Event} {event : Event}

theorem account_concat : account restored (past ++ [event]) = event.account (account restored past) := by
  simp [account]

theorem deliveries_concat : deliveries restored (past ++ [event]) = deliveries restored past ++ event.deliveries (account restored past) := by
  induction past generalizing restored with
  | nil => simp [deliveries, account]
  | cons first past ih =>
    rw [List.cons_append, deliveries, ih, deliveries, List.append_assoc]
    rfl

theorem filings_quiet (silent : event.replied = []) (started : ∀ answer ∈ past.flatMap Event.replied,
    answer.1 < (deliveries restored past).length) : filings restored (past ++ [event]) = filings restored past := by
  have same : (past ++ [event]).flatMap Event.replied = past.flatMap Event.replied := by simp [silent]
  unfold filings
  rw [same]
  apply List.filterMap_congr
  intro answer member
  simp only [deliveries_concat, List.getElem?_append_left (started answer member)]

theorem filings_replied {number : Nat} {target : String} {dictionary : Fields} {source : Source}
    (held : (deliveries restored past)[number]? = some source) :
    filings restored (past ++ [.reply number target (some dictionary)]) = filings restored past ++ [source] := by
  have same : deliveries restored (past ++ [.reply number target (some dictionary)]) = deliveries restored past := by
    simp [deliveries_concat, Event.deliveries]
  simp only [filings, same, List.flatMap_append, List.filterMap_append, List.flatMap_cons, List.flatMap_nil, Event.replied,
    List.append_nil, List.filterMap_cons, List.filterMap_nil, held]

structure Recorded (restored : Option String) (past : List Event) (state : State) : Prop where
  signedIn : state.currentUser = account restored past
  lookups : state.lookups.map (fun lookup => (lookup.listener, lookup.message)) =
    (deliveries restored past).map fun source => (source.listener, source.message)
  filed : ∀ source ∈ deliveries restored past, source.Filed
  inside : ∀ source ∈ deliveries restored past, source.listener < state.listeners.length
  started : ∀ answer ∈ past.flatMap Event.replied, answer.1 < (deliveries restored past).length
  listeners : ∀ (number : Nat) (listener : Listener), state.listeners[number]? = some listener →
    listener.conversations.map Conversation.message = (filedBy restored past number).map Source.message
  dictionary : ∀ target, (state.controller.conversationsDictionary.lookup target).map Conversation.message =
    (lastFiled restored past target).map Source.message

variable {state next : State}

theorem mem_filings {source : Source} (member : source ∈ filings restored past) : source ∈ deliveries restored past := by
  obtain ⟨answer, _, held⟩ := List.mem_filterMap.mp member
  exact List.mem_of_getElem? held

theorem lastFiled_mem {target : String} {source : Source} (last : lastFiled restored past target = some source) :
    source ∈ filings restored past := by
  obtain ⟨reply, _, found⟩ := List.exists_of_findSome?_eq_some last
  exact List.mem_of_mem_filter (latest_eq_some _ found).1

theorem Recorded.asked (recorded : Recorded restored past state) {number : Nat} {lookup : Lookup}
    (asked : state.lookups[number]? = some lookup) :
    ∃ source, (deliveries restored past)[number]? = some source ∧ source.listener = lookup.listener ∧ source.message = lookup.message := by
  have pair : ((deliveries restored past)[number]?).map (fun source => (source.listener, source.message)) =
      some (lookup.listener, lookup.message) := by
    rw [← List.getElem?_map, ← recorded.lookups, List.getElem?_map, asked]
    rfl
  obtain ⟨source, held, same⟩ := Option.map_eq_some_iff.mp pair
  exact ⟨source, held, congrArg Prod.fst same, congrArg Prod.snd same⟩

theorem filedBy_replied {number listener : Nat} {target : String} {dictionary : Fields} {source : Source}
    (held : (deliveries restored past)[number]? = some source) :
    filedBy restored (past ++ [.reply number target (some dictionary)]) listener =
      filedBy restored past listener ++ if source.listener = listener then [source] else [] := by
  by_cases here : source.listener = listener <;> simp [filedBy, filings_replied held, here]

/-- A reply comes before all others for whomever its listener has something filed for. -/
theorem lastFiled_replied {number : Nat} {target : String} {dictionary : Fields} {source : Source}
    (held : (deliveries restored past)[number]? = some source) (partner : String) :
    lastFiled restored (past ++ [.reply number target (some dictionary)]) partner =
      (latest Source.partner partner (filedBy restored past source.listener ++ [source])).or (lastFiled restored past partner) := by
  rw [lastFiled, filings_replied held, List.reverse_append, List.reverse_singleton, List.singleton_append, List.findSome?_cons]
  simp only [filedBy_replied held, if_true]
  cases own : latest Source.partner partner (filedBy restored past source.listener ++ [source]) with
  | some last => rfl
  | none =>
    rw [Option.none_or, lastFiled]
    have nothing : latest Source.partner partner (filedBy restored past source.listener) = none := by
      rw [latest_append, Option.or_eq_none_iff] at own
      exact own.2
    have same : ∀ last : Source, latest Source.partner partner
        (filedBy restored past last.listener ++ if source.listener = last.listener then [source] else []) =
        latest Source.partner partner (filedBy restored past last.listener) := by
      intro last
      split
      next here => rw [← here, own, nothing]
      next => rw [List.append_nil]
    simp only [same]

theorem latest_filed {sources : List Source} (filed : ∀ source ∈ sources, source.Filed) (target : String) :
    latest Message.chatPartnerId target (sources.map Source.message) = (latest Source.partner target sources).map Source.message := by
  rw [latest_map]
  apply congrArg (Option.map Source.message)
  apply latest_congr
  intro source member
  rw [(filed source member).decoded.2]

section Steps

variable (recorded : Recorded restored past state)

include recorded

theorem Recorded.filedBy_nil {number : Nat} (outside : state.listeners.length ≤ number) : filedBy restored past number = [] := by
  rw [filedBy, List.filter_eq_nil_iff]
  intro source member here
  have inside := recorded.inside source (mem_filings member)
  have here := of_decide_eq_true here
  omega

theorem Recorded.quiet (silent : event.replied = []) (still : event.deliveries (account restored past) = [])
    (session : next.currentUser = event.account state.currentUser)
    (lookups : next.lookups.map (fun lookup => (lookup.listener, lookup.message)) =
      state.lookups.map fun lookup => (lookup.listener, lookup.message))
    (listeners : ∃ fresh, next.listeners = state.listeners ++ fresh ∧ ∀ listener ∈ fresh, listener.conversations = [])
    (controller : next.controller = state.controller) : Recorded restored (past ++ [event]) next := by
  have delivered : deliveries restored (past ++ [event]) = deliveries restored past := by
    rw [deliveries_concat, still, List.append_nil]
  have filed := filings_quiet silent recorded.started
  have by_listener : filedBy restored (past ++ [event]) = filedBy restored past := by
    funext number
    rw [filedBy, filed, filedBy]
  obtain ⟨fresh, grown, empty⟩ := listeners
  refine ⟨?_, ?_, ?_, ?_, ?_, ?_, ?_⟩
  · rw [session, account_concat, recorded.signedIn]
  · rw [lookups, delivered]
    exact recorded.lookups
  · rw [delivered]
    exact recorded.filed
  · rw [delivered, grown, List.length_append]
    intro source member
    exact Nat.lt_add_right _ (recorded.inside source member)
  · rw [delivered]
    intro answer member
    apply recorded.started
    simpa [silent] using member
  · intro number listener found
    rw [by_listener]
    rw [grown, List.getElem?_append] at found
    split at found
    next => exact recorded.listeners number listener found
    next outside =>
      rw [recorded.filedBy_nil (Nat.le_of_not_lt outside), empty listener (List.mem_of_getElem? found)]
      rfl
  · intro target
    rw [controller, recorded.dictionary, lastFiled, lastFiled, filed, by_listener]

theorem Recorded.delivered {number : Nat} {changes : List Delivered} {listener : Listener} {result : QueryResult}
    (found : state.listeners[number]? = some listener) (filed : (Event.snapshot number listener.uid changes).Filed) :
    Recorded restored (past ++ [.snapshot number listener.uid changes])
      { state with
        listeners := state.listeners.set number { listener with result }
        lookups := state.lookups ++ Service.fetchConversations state.currentUser number changes } := by
  have delivered : deliveries restored (past ++ [.snapshot number listener.uid changes]) =
      deliveries restored past ++ changes.map (Source.mk number listener.uid (account restored past)) := deliveries_concat
  have filings := @filings_quiet restored past (.snapshot number listener.uid changes) rfl recorded.started
  have by_listener : filedBy restored (past ++ [.snapshot number listener.uid changes]) = filedBy restored past := by
    funext other
    rw [filedBy, filings, filedBy]
  refine ⟨?_, ?_, ?_, ?_, ?_, ?_, ?_⟩
  · rw [account_concat]
    exact recorded.signedIn
  · rw [delivered, List.map_append, List.map_append, recorded.lookups, Service.fetchConversations, List.map_map, List.map_map,
      recorded.signedIn]
    rfl
  · intro source member
    rw [delivered] at member
    rcases List.mem_append.mp member with old | new
    · exact recorded.filed source old
    · obtain ⟨change, held, rfl⟩ := List.mem_map.mp new
      exact filed change held
  · intro source member
    rw [List.length_set]
    rw [delivered] at member
    rcases List.mem_append.mp member with old | new
    · exact recorded.inside source old
    · obtain ⟨change, _, rfl⟩ := List.mem_map.mp new
      exact (List.getElem?_eq_some_iff.mp found).1
  · intro answer member
    have before : answer ∈ past.flatMap Event.replied := by simpa [Event.replied] using member
    rw [delivered, List.length_append]
    exact Nat.lt_add_right _ (recorded.started answer before)
  · intro other current held
    rw [by_listener]
    rw [Slots.getElem?_set found] at held
    split at held
    next here =>
      subst here
      cases held
      exact recorded.listeners number listener found
    next => exact recorded.listeners other current held
  · intro target
    rw [lastFiled, filings, by_listener]
    exact recorded.dictionary target

theorem Recorded.replied {number : Nat} {dictionary : Fields} {lookup : Lookup} {listener : Listener}
    (asked : state.lookups[number]? = some lookup) (found : state.listeners[lookup.listener]? = some listener) :
    Recorded restored (past ++ [.reply number lookup.message.chatPartnerId (some dictionary)])
      { state with
        lookups := state.lookups.set number { lookup with answered := true }
        listeners := state.listeners.set lookup.listener
          { listener with conversations := listener.conversations ++ [⟨User.init dictionary, lookup.message⟩] }
        controller := state.controller.fetchConverations
          (listener.conversations ++ [⟨User.init dictionary, lookup.message⟩]) } := by
  obtain ⟨source, held, here, same⟩ := recorded.asked asked
  have delivered : deliveries restored (past ++ [.reply number lookup.message.chatPartnerId (some dictionary)]) =
      deliveries restored past := by
    rw [deliveries_concat]
    exact List.append_nil _
  have arriving : (listener.conversations ++ [⟨User.init dictionary, lookup.message⟩] : List Conversation).map Conversation.message =
      (filedBy restored past source.listener ++ [source]).map Source.message := by
    rw [List.map_append, List.map_append, here, recorded.listeners lookup.listener listener found, List.map_singleton,
      List.map_singleton, same]
  refine ⟨?_, ?_, ?_, ?_, ?_, ?_, ?_⟩
  · rw [account_concat]
    exact recorded.signedIn
  · rw [delivered, ← recorded.lookups]
    exact Slots.map_set asked _ rfl
  · rw [delivered]
    exact recorded.filed
  · rw [delivered, List.length_set]
    exact recorded.inside
  · intro answer member
    rw [delivered]
    simp only [List.flatMap_append, List.mem_append] at member
    rcases member with old | new
    · exact recorded.started answer old
    · obtain rfl : answer = (number, dictionary) := by simpa [Event.replied] using new
      exact (List.getElem?_eq_some_iff.mp held).1
  · intro other current reached
    rw [filedBy_replied held]
    rw [Slots.getElem?_set found] at reached
    split at reached
    next same =>
      subst same
      cases reached
      rw [if_pos here, ← here]
      exact arriving
    next different =>
      rw [if_neg (fun same => different (here.symm.trans same)), List.append_nil]
      exact recorded.listeners other current reached
  · intro target
    have filed : ∀ last ∈ filedBy restored past source.listener ++ [source], last.Filed := by
      intro last member
      rcases List.mem_append.mp member with old | new
      · exact recorded.filed last (mem_filings (List.mem_of_mem_filter old))
      · obtain rfl := List.mem_singleton.mp new
        exact recorded.filed last (List.mem_of_getElem? held)
    rw [fetchConverations_lookup, Option.map_or, recorded.dictionary, lastFiled_replied held, Option.map_or,
      ← latest_map Message.chatPartnerId, arriving, latest_filed filed]

theorem Recorded.step (filed : event.Filed) (stepped : Step state event next) : Recorded restored (past ++ [event]) next := by
  cases stepped with
  | signIn => exact recorded.quiet rfl rfl rfl rfl ⟨[], (List.append_nil _).symm, by simp⟩ rfl
  | authenticationComplete =>
    unfold State.fetchConverations
    split
    · exact recorded.quiet rfl rfl rfl rfl ⟨[], (List.append_nil _).symm, by simp⟩ rfl
    · exact recorded.quiet rfl rfl rfl rfl ⟨_, rfl, by simp⟩ rfl
  | thrown => exact recorded.quiet rfl rfl rfl rfl ⟨[], (List.append_nil _).symm, by simp⟩ rfl
  | signedOut => exact recorded.quiet rfl rfl rfl rfl ⟨[], (List.append_nil _).symm, by simp⟩ rfl
  | delivered found => exact recorded.delivered found filed
  | missing asked => exact recorded.quiet rfl rfl rfl (Slots.map_set asked _ rfl) ⟨[], (List.append_nil _).symm, by simp⟩ rfl
  | replied asked _ found => exact recorded.replied asked found

end Steps

theorem viewDidLoad_recorded (restored : Option String) : Recorded restored [] (viewDidLoad restored) := by
  have before : Recorded restored [] ⟨restored, [], [], ⟨∅, []⟩⟩ := by
    refine ⟨rfl, rfl, ?_, ?_, ?_, ?_, fun _ => rfl⟩
    · intro source member
      cases member
    · intro source member
      cases member
    · intro answer member
      cases member
    · intro number listener found
      cases found
  unfold viewDidLoad State.fetchConverations
  split
  · exact before
  · refine ⟨rfl, rfl, before.filed, ?_, before.started, ?_, fun _ => rfl⟩
    · intro source member
      cases member
    · intro number listener found
      cases number with
      | zero => cases found; rfl
      | succ number => cases found

end Inbox

end FireChat
