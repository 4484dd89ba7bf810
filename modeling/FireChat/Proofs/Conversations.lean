import FireChat.Proofs.ChatScreen
import FireChat.Proofs.Mirroring
import FireChat.Proofs.Subscriptions

/-! A conversation from end to end: what one user sends is what the chat screens of
both show. A chat log only grows, so its documents reach a screen once each. -/

namespace FireChat

namespace Chat

def Logged (log : DocumentId → Option Fields) (change : DocumentChange) : Prop :=
  change.kind ≠ .removed ∧ log change.item.documentID = some change.item.data

def Within (log : DocumentId → Option Fields) (result : QueryResult) : Prop :=
  ∀ document ∈ result.list, log document.documentID = some document.data

theorem insert_within {log : DocumentId → Option Fields} {result next : QueryResult} {index : Nat} {document : QueryDocumentSnapshot}
    (within : Within log result) (logged : log document.documentID = some document.data)
    (inserted : result.insert index document = some next) :
    Within log next ∧ next.contents.Perm (document.data.content :: result.contents) := by
  obtain ⟨inside, list⟩ := Keyed.Items.insert_list inserted
  refine ⟨?_, ?_⟩
  · intro other member
    rcases (Keyed.Items.mem_insert inserted other).mp member with rfl | old
    · exact logged
    · exact within other old
  · rw [QueryResult.contents, list]
    exact (List.perm_insertIdx document result.list inside).map fun document => document.data.content

theorem remove_within {log : DocumentId → Option Fields} {result next : QueryResult} {index : Nat} {document : QueryDocumentSnapshot}
    (within : Within log result) (logged : log document.documentID = some document.data)
    (removed : result.remove index document.documentID = some next) :
    Within log next ∧ (document.data.content :: next.contents).Perm result.contents := by
  unfold Keyed.Items.remove at removed
  split at removed
  next held =>
    cases removed
    obtain ⟨gone, found, own⟩ := Option.map_eq_some_iff.mp held
    obtain ⟨inside, rfl⟩ := List.getElem?_eq_some_iff.mp found
    have same : result.list[index].data = document.data := by
      have listed := within _ (List.getElem_mem inside)
      rw [own, logged] at listed
      exact (Option.some.inj listed).symm
    refine ⟨?_, ?_⟩
    · intro other member
      exact within other ((List.eraseIdx_sublist result.list index).subset member)
    · rw [← same]
      exact (List.getElem_cons_eraseIdx_perm inside).map fun document => document.data.content
  next => cases removed

theorem apply_within {log : DocumentId → Option Fields} {result next : QueryResult} {change : DocumentChange}
    (within : Within log result) (logged : Logged log change) (applied : result.apply change = some next) :
    Within log next ∧
      next.contents.Perm (result.contents ++ if change.kind = .added then [change.item.data.content] else []) := by
  obtain ⟨kept, listed⟩ := logged
  unfold Keyed.Items.apply at applied
  cases kind : change.kind with
  | removed => exact absurd kind kept
  | added =>
    simp only [kind] at applied
    obtain ⟨stays, contents⟩ := insert_within within listed applied
    exact ⟨stays, contents.trans (List.perm_append_singleton _ _).symm⟩
  | modified =>
    simp only [kind] at applied
    obtain ⟨middle, removed, inserted⟩ := Option.bind_eq_some_iff.mp applied
    obtain ⟨between, fewer⟩ := remove_within within listed removed
    obtain ⟨stays, more⟩ := insert_within between listed inserted
    refine ⟨stays, ?_⟩
    simpa using more.trans fewer

theorem changes_within {log : DocumentId → Option Fields} {changes : List Delivered} {result next : QueryResult}
    (within : Within log result) (logged : ∀ delivered ∈ changes, Logged log delivered.change)
    (ran : Transition.run Keyed.Items.apply result (changes.map Delivered.change) = some next) :
    Within log next ∧ next.contents.Perm (result.contents ++ additions changes) := by
  induction changes generalizing result with
  | nil =>
    cases ran
    exact ⟨within, by simp [additions]⟩
  | cons delivered changes ih =>
    obtain ⟨middle, applied, ran⟩ := Transition.run_cons.mp ran
    obtain ⟨between, first⟩ := apply_within within (logged delivered (by simp)) applied
    obtain ⟨stays, rest⟩ := ih between (fun other member => logged other (by simp [member])) ran
    refine ⟨stays, rest.trans ?_⟩
    have split : additions (delivered :: changes) =
        (if delivered.change.kind = .added then [delivered.change.item.data.content] else []) ++ additions changes := by
      unfold additions
      by_cases added : delivered.change.kind = .added
      · simp [added, Delivered.content]
      · simp [added]
    rw [split, ← List.append_assoc]
    exact first.append_right _

theorem screen_within {currentUid : String} {log : DocumentId → Option Fields} {snapshots : List (List Delivered)} {state : State}
    (logged : ∀ changes ∈ snapshots, ∀ delivered ∈ changes, Logged log delivered.change)
    (ran : run currentUid initial snapshots = some state) :
    Within log state.result ∧ (state.controller.messages.map Message.content).Perm state.result.contents := by
  have keeps : ∀ (state : State) changes next,
      Synced state ∧ Within log state.result ∧ (state.controller.messages.map Message.content).Perm state.result.contents →
      (∀ delivered ∈ changes, Logged log delivered.change) → step currentUid state changes = some next →
      Synced next ∧ Within log next.result ∧ (next.controller.messages.map Message.content).Perm next.result.contents := by
    rintro state changes next ⟨synced, within, shows⟩ logged stepped
    obtain ⟨delivered, kept, shown⟩ := step_spec synced stepped
    obtain ⟨stays, contents⟩ := changes_within within logged (QueryResult.snapshot_eq_some.mp delivered).1
    refine ⟨kept, stays, ?_⟩
    rw [shown]
    exact (shows.append_right _).trans contents.symm
  have initially : Synced initial ∧ Within log initial.result ∧
      (initial.controller.messages.map Message.content).Perm initial.result.contents :=
    ⟨rfl, fun _ member => (List.not_mem_nil member).elim, List.Perm.refl _⟩
  exact (Transition.run_invariant keeps initially logged ran).2

/-- A chat screen takes every snapshot that its query does. -/
theorem run_of_snapshots {currentUid : String} {snapshots : List (List Delivered)} {state : State} {result : QueryResult}
    (ran : Transition.run QueryResult.snapshot state.result snapshots = some result) :
    ∃ next, run currentUid state snapshots = some next ∧ next.result = result := by
  induction snapshots generalizing state with
  | nil =>
    cases ran
    exact ⟨state, rfl, rfl⟩
  | cons changes snapshots ih =>
    obtain ⟨middle, delivered, ran⟩ := Transition.run_cons.mp ran
    obtain ⟨next, rest, same⟩ := @ih { changes.foldl (State.handle currentUid) state with result := middle } ran
    refine ⟨next, Transition.run_cons.mpr ⟨_, ?_, rest⟩, same⟩
    rw [step, delivered]
    rfl

end Chat

open Core.Proofs

def Delivery.State.logged (state : Delivery.State) (path : Path) (id : DocumentId) : Option Fields :=
  ((state.messages path).lookup id).map Document.data

theorem Delivery.logged_eq_some {store : Delivery.State} {path : Path} {id : DocumentId} {data : Fields}
    (logged : store.logged path id = some data) : ∃ entry ∈ (store.messages path).entries, entry.1 = id ∧ entry.2.data = data := by
  obtain ⟨document, held, rfl⟩ := Option.map_eq_some_iff.mp logged
  exact ⟨⟨id, document⟩, AList.mem_lookup_iff.mp held, rfl, rfl⟩

/-- Every message that was ever stored has the time that the query orders by. -/
theorem Delivery.Valid.stamped {verdict : Nat → Write → Option NSError} {store : Delivery.State} (valid : Delivery.Valid verdict store)
    {path : Path} {id : DocumentId} {data : Fields} (logged : store.logged path id = some data) :
    (data.timestamp? "timestamp").isSome := by
  obtain ⟨entry, member, _, rfl⟩ := Delivery.logged_eq_some logged
  obtain ⟨upload, write, origin⟩ := valid.origin path entry member
  rw [origin.data]
  rfl

variable {δ : Type} {dictionary : δ → Fields} {path : Path}

def InLog (dictionary : δ → Fields) (log : DocumentId → Option Fields) (document : Core.Document DocumentKey δ) : Prop :=
  log document.key.documentID = some (dictionary document.data)

variable [LinearOrder DocumentKey] {log : DocumentId → Option Fields}

/-- What the events of a view do that only ever grows with a log. -/
abbrev Grown (dictionary : δ → Fields) (path : Path) (log : DocumentId → Option Fields)
    (before after : Core.DocumentSet (Service.query dictionary path)) : Prop :=
  Holding (fun document => (Service.query dictionary path).matches document ∧ InLog dictionary log document) after ∧
    ∀ key, (before.find key).isSome → (after.find key).isSome

theorem documentChanges_logged {event : Core.ViewSnapshot (Service.query dictionary path)} {changes : List DocumentChange}
    (faithful : Faithful event) (grown : Grown dictionary path log event.oldDocuments event.documents)
    (told : documentChanges dictionary event = some changes) : ∀ change ∈ changes, Chat.Logged log change := by
  obtain ⟨reported, ran, rfl⟩ := Option.map_eq_some_iff.mp told
  intro change member
  obtain ⟨documentChange, inside, rfl⟩ := List.mem_map.mp member
  obtain ⟨source, listed, document, type⟩ := forEachChange_documents ran documentChange inside
  have turns := faithful.changed source listed
  have kept : source.type ≠ .removed := by
    intro removed
    simp only [Turns, removed] at turns
    obtain ⟨was, gone⟩ := turns
    have still := grown.2 _ was
    rw [gone] at still
    cases still
  have entered := turns.shown kept
  obtain ⟨held, _⟩ := Keyed.Items.find_eq_some.mp entered
  refine ⟨?_, ?_⟩
  · show documentChange.type ≠ .removed
    rw [type]
    cases shown : source.type with
    | removed => exact absurd shown kept
    | added => simp [Core.documentChangeTypeForChange]
    | modified => simp [Core.documentChangeTypeForChange]
    | metadata => simp [Core.documentChangeTypeForChange]
  · show log documentChange.document.document.key.documentID = some (dictionary documentChange.document.document.data)
    rw [document]
    exact (grown.1 source.document held).2

theorem hands_logged {received : List (Core.ViewSnapshot (Service.query dictionary path))} {snapshots : List (List Delivered)}
    (shown : Shown (Grown dictionary path log) received) (hands : Hands dictionary received snapshots) :
    ∀ changes ∈ snapshots, ∀ delivered ∈ changes, Chat.Logged log delivered.change := by
  intro changes member delivered inside
  have handed : some (changes.map Delivered.change) ∈ received.map (documentChanges dictionary) := by
    rw [hands]
    exact List.mem_map_of_mem member
  obtain ⟨event, told, ran⟩ := List.mem_map.mp handed
  obtain ⟨past, future, split⟩ := List.append_of_mem told
  have early : past ++ [event] <+: received := ⟨future, by simp [split]⟩
  obtain ⟨grown, faithful, _⟩ := shown past event early
  exact documentChanges_logged faithful grown ran _ (List.mem_map_of_mem inside)

variable [DecidableEq δ]

/-- A run of a client that the store's log feeds, one of the app's listeners on it,
and the snapshots that this listener's events hand to its closure. -/
structure Reader (ℓ : Type) [DecidableEq ℓ] (dictionary : δ → Fields) (store : Delivery.State) (path : Path) where
  events : List (Core.ClientEvent ℓ DocumentKey δ)
  final : Core.Client ℓ (Service.query dictionary path)
  info : Core.QueryListenersInfo ℓ (Service.query dictionary path)
  registered : Core.Registered ℓ (Service.query dictionary path)
  snapshots : List (List Delivered)
  fed : ∀ event ∈ events, Grows (Service.query dictionary path) (InLog dictionary (store.logged path)) event
  ran : Core.Client.start.run events = some final
  listening : final.info = some info
  member : registered ∈ info.listeners
  options : registered.listener.options = .defaultOptions
  hands : Hands dictionary registered.received snapshots

variable {ℓ : Type} [DecidableEq ℓ] {verdict : Nat → Write → Option NSError} {store : Delivery.State}

def Reader.arrived (reader : Reader ℓ dictionary store path) (id : DocumentId) : Prop :=
  ∃ view, reader.final.view = some view ∧ ∃ document ∈ view.documentSet.list, document.key.documentID = id

/-- The closure takes every snapshot, and its query result is what the view has of the log. -/
theorem Reader.result_spec (reader : Reader ℓ dictionary store path) (valid : Delivery.Valid verdict store) (currentUid : String) :
    ∃ state, Chat.run currentUid Chat.initial reader.snapshots = some state ∧
      Chat.Within (store.logged path) state.result ∧
      (state.controller.messages.map Message.content).Perm state.result.contents ∧
      ∀ id, reader.arrived id ↔ ∃ document ∈ state.result.list, document.documentID = id := by
  obtain ⟨view, viewed, opened⟩ := run_open (law_grows rfl) reader.fed reader.ran reader.listening
  have following := opened.following reader.registered reader.member
  have ready : reader.registered.listener.options.waitForSyncWhenOnline = false := by rw [reader.options]; rfl
  have listed : Shown (fun _ after => Holding (Listed dictionary path) after) reader.registered.received := by
    refine following.shown.mono ?_
    intro before after grown document member
    obtain ⟨fits, logged⟩ := grown.1 document member
    exact ⟨fits, valid.stamped logged⟩
  obtain ⟨items, seen, _, result, ran, list⟩ := hands_run listed reader.hands
  obtain ⟨state, shows, same⟩ := @Chat.run_of_snapshots currentUid _ Chat.initial _ ran
  obtain ⟨within, screen⟩ := Chat.screen_within (hands_logged following.shown reader.hands) shows
  cases seen.symm.trans (following.seen_view (Or.inr ready))
  refine ⟨state, shows, within, screen, ?_⟩
  intro id
  rw [same, list]
  simp only [Reader.arrived, viewed, Option.some.injEq, exists_eq_left', contents, Keyed.Items.map, List.map_map, List.mem_map]
  refine ⟨?_, ?_⟩
  · rintro ⟨document, member, rfl⟩
    exact ⟨_, ⟨document, member, rfl⟩, rfl⟩
  · rintro ⟨_, ⟨document, member, rfl⟩, own⟩
    exact ⟨document, member, own⟩

/-- Whatever Firestore accepted and whatever has reached it so far, the chat screen
shows messages of the log, each at most once, and all of them if all have arrived. -/
theorem screen_shows_log {events : List Delivery.Event} (sent : Delivery.run verdict Delivery.initial events = some store)
    (reader : Reader ℓ dictionary store path) (currentUid : String) :
    ∃ state, Chat.run currentUid Chat.initial reader.snapshots = some state ∧
      (state.controller.messages.map Message.content).Subperm ((store.messages path).contents.map Fields.content) ∧
      ((∀ id ∈ store.messages path, reader.arrived id) →
        (state.controller.messages.map Message.content).Perm ((store.messages path).contents.map Fields.content)) := by
  obtain ⟨state, ran, within, screen, arrived⟩ := reader.result_spec (Delivery.run_valid sent) currentUid
  let shown := state.result.list.map fun document => (document.documentID, document.data)
  let stored := (store.messages path).entries.map fun entry => (entry.1, entry.2.data)
  have shownOnce : shown.Nodup := by
    refine List.Nodup.of_map Prod.fst ?_
    rw [List.map_map]
    exact state.result.distinct
  have storedOnce : stored.Nodup := by
    refine List.Nodup.of_map Prod.fst ?_
    rw [List.map_map]
    exact (store.messages path).nodupKeys
  have inside : shown ⊆ stored := by
    intro pair member
    obtain ⟨document, held, rfl⟩ := List.mem_map.mp member
    obtain ⟨entry, present, id, data⟩ := Delivery.logged_eq_some (within document held)
    exact List.mem_map.mpr ⟨entry, present, by rw [id, data]⟩
  have results : state.result.contents = shown.map fun pair => pair.2.content := by
    simp [QueryResult.contents, shown, Function.comp_def]
  have logs : (store.messages path).contents.map Fields.content = stored.map fun pair => pair.2.content := by
    simp [Collection.contents, stored, Function.comp_def]
  refine ⟨state, ran, ?_, ?_⟩
  · rw [logs]
    refine screen.subperm.trans ?_
    rw [results]
    obtain ⟨part, permuted, sublist⟩ := shownOnce.subperm inside
    exact ⟨part.map _, permuted.map _, sublist.map _⟩
  · intro complete
    rw [logs]
    refine screen.trans ?_
    rw [results]
    refine List.Perm.map _ ((List.perm_ext_iff_of_nodup shownOnce storedOnce).mpr ?_)
    intro pair
    refine ⟨fun member => inside member, ?_⟩
    intro member
    obtain ⟨entry, present, rfl⟩ := List.mem_map.mp member
    obtain ⟨document, held, own⟩ := (arrived entry.1).mp (complete entry.1 (AList.mem_keys.mpr (List.mem_map_of_mem present)))
    have logged : store.logged path entry.1 = some entry.2.data := by
      rw [Delivery.State.logged, AList.mem_lookup_iff.mpr present]
      rfl
    have same := within document held
    rw [own, logged] at same
    exact List.mem_map.mpr ⟨document, held, by rw [own, ← Option.some.inj same]⟩

/-- Once every write of every send is done, and everything has arrived, the screens of
both users show the messages between the two, each as often as it was sent. -/
theorem conversation_on_both_screens {registered : String → Prop} (reserved : ¬ registered recentMessages)
    {events : List Delivery.Event} (users : Delivery.Registered registered events)
    (sent : Delivery.run Delivery.accepts Delivery.initial events = some store) (settled : store.Settled)
    {first second : String} (known : registered first) (other : registered second)
    (reader : Reader ℓ dictionary store ⟨first, second⟩) (complete : ∀ id ∈ store.messages ⟨first, second⟩, reader.arrived id)
    (partner : Reader ℓ dictionary store ⟨second, first⟩) (completed : ∀ id ∈ store.messages ⟨second, first⟩, partner.arrived id) :
    ∃ state mirror, Chat.run first Chat.initial reader.snapshots = some state ∧
      Chat.run second Chat.initial partner.snapshots = some mirror ∧
      (state.controller.messages.map Message.content).Perm (mirror.controller.messages.map Message.content) ∧
      (state.controller.messages.map Message.content).Perm
        (((events.flatMap Delivery.Event.requests).filter fun request => request.Between first second).map
          fun request => (request.message, request.currentUid, request.userUid)) := by
  have landed := Delivery.settled_all_landed sent settled
  have requests : ∀ request ∈ store.requests, request.Registered registered := Delivery.run_requests sent ▸ users
  have log : ∀ {uid}, registered uid → uid ≠ recentMessages := fun user same => reserved (same ▸ user)
  have own := Delivery.log_contents first (Delivery.run_valid sent) landed requests (log other)
  have mirrored := Delivery.log_contents second (Delivery.run_valid sent) landed requests (log known)
  have symmetric : (store.requests.filter fun request => request.Between second first) =
      store.requests.filter fun request => request.Between first second :=
    List.filter_congr fun request _ => decide_eq_decide.mpr Request.between_comm
  rw [symmetric] at mirrored
  obtain ⟨state, ran, _, all⟩ := screen_shows_log sent reader first
  obtain ⟨mirror, mirrorRan, _, mirrorAll⟩ := screen_shows_log sent partner second
  have shows := (all complete).trans (own.map Fields.content)
  have shown := (mirrorAll completed).trans (mirrored.map Fields.content)
  refine ⟨state, mirror, ran, mirrorRan, shows.trans shown.symm, ?_⟩
  rw [List.map_map, Delivery.run_requests sent] at shows
  exact shows

end FireChat

namespace FireChat.ByParts

open Core.Proofs

/-- One way for the core to order keys. -/
def parts (key : DocumentKey) : (String ×ₗ String) ×ₗ (Nat ⊕ₗ String) :=
  toLex
    (toLex (key.path.owner, key.path.name),
      match key.documentID with
      | .auto number => toLex (.inl number)
      | .named name => toLex (.inr name))

theorem parts_injective : Function.Injective parts := by
  rintro ⟨⟨_, _⟩, first⟩ ⟨⟨_, _⟩, second⟩ same
  cases first <;> cases second <;> simp_all [parts]

scoped instance : LinearOrder DocumentKey := LinearOrder.lift' parts parts_injective

def sentOnce : Delivery.State := (Delivery.run Delivery.accepts Delivery.initial Delivery.oneSend).get rfl

def message (path : Path) (number : Nat) : Core.Document DocumentKey Fields :=
  ⟨⟨path, .auto number⟩, Request.data ⟨"hello", "ann", "bob", ⟨1, 0⟩⟩, ⟨3, 0⟩, .synced⟩

def opens (path : Path) (number : Nat) : List (Core.ClientEvent Nat DocumentKey Fields) :=
  [.addQueryListener 0 .defaultOptions (Keyed.Sorted.empty.insert (.document (message path number))) ∅ none]

theorem opens_fed {path : Path} {number : Nat}
    (logged : sentOnce.logged path (.auto number) = some (Request.data ⟨"hello", "ann", "bob", ⟨1, 0⟩⟩)) :
    ∀ event ∈ opens path number, Grows (Service.query id path) (InLog id (sentOnce.logged path)) event := by
  intro event member
  cases List.mem_singleton.mp member
  refine ⟨?_, by rintro _ _ _ ⟨⟩⟩
  intro document held _
  cases List.mem_singleton.mp held
  exact logged

def added (number : Nat) : DocumentChange :=
  ⟨.added, ⟨.auto number, Request.data ⟨"hello", "ann", "bob", ⟨1, 0⟩⟩⟩, Core.nsNotFound, 0⟩

def annClient : Core.Client Nat (Service.query id ⟨"ann", "bob"⟩) := (Core.Client.start.run (opens ⟨"ann", "bob"⟩ 0)).get rfl

def bobClient : Core.Client Nat (Service.query id ⟨"bob", "ann"⟩) := (Core.Client.start.run (opens ⟨"bob", "ann"⟩ 2)).get rfl

def ann : Reader Nat id sentOnce ⟨"ann", "bob"⟩ where
  events := opens ⟨"ann", "bob"⟩ 0
  final := annClient
  info := annClient.info.get rfl
  registered := (annClient.info.get rfl).listeners.head (List.cons_ne_nil _ _)
  snapshots := [[⟨added 0, ⟨4, 0⟩⟩]]
  fed := opens_fed rfl
  ran := rfl
  listening := rfl
  member := List.mem_singleton_self _
  options := rfl
  hands := rfl

def bob : Reader Nat id sentOnce ⟨"bob", "ann"⟩ where
  events := opens ⟨"bob", "ann"⟩ 2
  final := bobClient
  info := bobClient.info.get rfl
  registered := (bobClient.info.get rfl).listeners.head (List.cons_ne_nil _ _)
  snapshots := [[⟨added 2, ⟨5, 0⟩⟩]]
  fed := opens_fed rfl
  ran := rfl
  listening := rfl
  member := List.mem_singleton_self _
  options := rfl
  hands := rfl

theorem ann_arrived : ∀ id ∈ sentOnce.messages ⟨"ann", "bob"⟩, ann.arrived id := by
  intro id member
  have only : id ∈ [DocumentId.auto 0] := AList.mem_keys.mp member
  cases List.mem_singleton.mp only
  exact ⟨_, rfl, message ⟨"ann", "bob"⟩ 0, List.mem_singleton_self _, rfl⟩

theorem bob_arrived : ∀ id ∈ sentOnce.messages ⟨"bob", "ann"⟩, bob.arrived id := by
  intro id member
  have only : id ∈ [DocumentId.auto 2] := AList.mem_keys.mp member
  cases List.mem_singleton.mp only
  exact ⟨_, rfl, message ⟨"bob", "ann"⟩ 2, List.mem_singleton_self _, rfl⟩

theorem one_message_in_log :
    ∃ state, Chat.run "ann" Chat.initial ann.snapshots = some state ∧
      (state.controller.messages.map Message.content).Perm [("hello", "ann", "bob")] := by
  have sent : Delivery.run Delivery.accepts Delivery.initial Delivery.oneSend = some sentOnce := rfl
  obtain ⟨state, ran, _, all⟩ := screen_shows_log sent ann "ann"
  exact ⟨state, ran, all ann_arrived⟩

theorem one_message_on_both_screens :
    ∃ state mirror, Chat.run "ann" Chat.initial ann.snapshots = some state ∧ Chat.run "bob" Chat.initial bob.snapshots = some mirror ∧
      (state.controller.messages.map Message.content).Perm (mirror.controller.messages.map Message.content) ∧
      (state.controller.messages.map Message.content).Perm [("hello", "ann", "bob")] :=
  conversation_on_both_screens (by decide) Delivery.oneSend_registered rfl (by decide) (Or.inl rfl) (Or.inr rfl) ann ann_arrived
    bob bob_arrived

end FireChat.ByParts
