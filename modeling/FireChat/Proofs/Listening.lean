import FireChat.Proofs.Emissions

/-! Listeners and their view. Whatever is added, removed, emitted, or lost with the
connection, and in whatever order, an app that applies every event it has received
holds the documents of the view. -/

namespace FireChat.Core.Proofs

variable {κ δ ν : Type} [LinearOrder κ] [Ord ν] [Std.TransOrd ν] {query : Query κ δ ν}

/-- What an app holds that applies the document changes of every event. -/
def seen (events : List (ViewSnapshot query)) : Option (Keyed.Items (Prod.fst : κ × δ → κ)) :=
  Transition.run
    (fun items event => (event.forEachChange false).bind fun reported =>
      Transition.run Keyed.Items.apply items (reported.map DocumentChange.shown))
    Keyed.Items.empty events

theorem seen_nil : seen ([] : List (ViewSnapshot query)) = some Keyed.Items.empty := rfl

theorem seen_concat {events : List (ViewSnapshot query)} {event : ViewSnapshot query}
    (before : seen events = some (contents event.oldDocuments)) (faithful : Faithful event) :
    seen (events ++ [event]) = some (contents event.documents) := by
  obtain ⟨reported, ran, applied⟩ := forEachChange_spec faithful false (by simp)
  refine Transition.run_concat.mpr ⟨_, before, ?_⟩
  simp only [ran, Option.bind_some, applied]

section Snapshots

omit [Std.TransOrd ν]

theorem Faithful.withoutMetadataChanges {snapshot : ViewSnapshot query} (faithful : Faithful snapshot) :
    Faithful snapshot.withoutMetadataChanges := by
  have kept : snapshot.withoutMetadataChanges.documentChanges.Sublist snapshot.documentChanges := List.filter_sublist
  refine ⟨faithful.distinct.sublist (kept.map _), faithful.sorted.sublist kept, ?_, ?_⟩
  · intro change member
    exact faithful.changed change (kept.subset member)
  · intro key absent
    by_cases named : key ∈ snapshot.documentChanges.map fun change => change.document.key
    · obtain ⟨change, member, rfl⟩ := List.mem_map.mp named
      have metadata : change.type = .metadata := by
        by_contra shown
        exact absent (List.mem_map.mpr ⟨change, List.mem_filter.mpr ⟨member, by simpa using shown⟩, rfl⟩)
      exact ((faithful.changed change member).metadata_content metadata fun document held => find_key held).symm
    · exact faithful.unchanged key named

theorem faithful_fromInitialDocuments (snapshot : ViewSnapshot query) : Faithful snapshot.fromInitialDocuments := by
  have keys : snapshot.fromInitialDocuments.documentChanges.map (fun change => change.document.key) =
      snapshot.documents.list.map Document.key := by
    simp [ViewSnapshot.fromInitialDocuments, Function.comp_def]
  refine ⟨keys ▸ snapshot.documents.distinct, ?_, ?_, ?_⟩
  · refine List.pairwise_map.mpr (snapshot.documents.sorted.imp ?_)
    exact fun below _ _ => below
  · intro change member
    obtain ⟨document, held, rfl⟩ := List.mem_map.mp member
    exact ⟨rfl, Keyed.Items.find_eq_some.mpr ⟨held, rfl⟩⟩
  · intro key absent
    rw [keys] at absent
    have missing : snapshot.documents.find key = none := by
      refine List.find?_eq_none.mpr ?_
      intro document held keyed
      exact absent (List.mem_map.mpr ⟨document, held, by simpa using keyed⟩)
    show (snapshot.documents.find key).map Document.content = _
    rw [missing]
    rfl

end Snapshots

section Current

omit [Std.TransOrd ν]

/-- A snapshot that shows the view as it is, as far as listeners go by it. -/
structure Current (view : View query) (snapshot : ViewSnapshot query) : Prop where
  documents : snapshot.documents = view.documentSet
  mutatedKeys : snapshot.mutatedKeys = view.mutatedKeys
  fromCache : snapshot.fromCache = decide (view.syncState = .local)

theorem Current.filtered {view : View query} {snapshot : ViewSnapshot query} (current : Current view snapshot)
    (listener : QueryListener query) : Current view (listener.filtered snapshot) := by
  unfold QueryListener.filtered
  split
  · exact current
  · exact ⟨current.documents, current.mutatedKeys, current.fromCache⟩

theorem Faithful.filtered {snapshot : ViewSnapshot query} (faithful : Faithful snapshot) (listener : QueryListener query) :
    Faithful (listener.filtered snapshot) := by
  unfold QueryListener.filtered
  split
  · exact faithful
  · exact faithful.withoutMetadataChanges

theorem filtered_oldDocuments (listener : QueryListener query) (snapshot : ViewSnapshot query) :
    (listener.filtered snapshot).oldDocuments = snapshot.oldDocuments := by
  unfold QueryListener.filtered
  split
  · rfl
  · rfl

end Current

/-- Each event takes the app from what the events before have shown it to the
documents of that event, and does no more than it may. -/
def Shown (becomes : DocumentSet query → DocumentSet query → Prop) (received : List (ViewSnapshot query)) : Prop :=
  ∀ past event, past ++ [event] <+: received →
    becomes event.oldDocuments event.documents ∧ Faithful event ∧ seen past = some (contents event.oldDocuments)

theorem Shown.nil {becomes : DocumentSet query → DocumentSet query → Prop} : Shown becomes ([] : List (ViewSnapshot query)) := by
  intro past event early
  simp at early

theorem Shown.concat {becomes : DocumentSet query → DocumentSet query → Prop} {received : List (ViewSnapshot query)} {event : ViewSnapshot query}
    (earlier : Shown becomes received) (may : becomes event.oldDocuments event.documents) (faithful : Faithful event)
    (before : seen received = some (contents event.oldDocuments)) : Shown becomes (received ++ [event]) := by
  intro past other early
  rcases List.prefix_concat_iff.mp early with whole | before
  · obtain ⟨rfl, same⟩ := List.append_inj' whole rfl
    cases same
    exact ⟨may, faithful, before⟩
  · exact earlier past other before

theorem Shown.last {becomes : DocumentSet query → DocumentSet query → Prop} {received : List (ViewSnapshot query)} {event : ViewSnapshot query}
    (shown : Shown becomes (received ++ [event])) :
    Shown becomes received ∧ becomes event.oldDocuments event.documents ∧ Faithful event ∧ seen received = some (contents event.oldDocuments) :=
  ⟨fun past other early => shown past other (early.trans (List.prefix_append _ _)), shown received event (List.prefix_refl _)⟩

theorem Shown.mono {becomes other : DocumentSet query → DocumentSet query → Prop} {received : List (ViewSnapshot query)}
    (weaker : ∀ before after, becomes before after → other before after) (shown : Shown becomes received) : Shown other received :=
  fun past event early => ⟨weaker _ _ (shown past event early).1, (shown past event early).2⟩

structure Following {ℓ : Type} (becomes : DocumentSet query → DocumentSet query → Prop) (view : View query) (onlineState : OnlineState)
    (registered : Registered ℓ query) : Prop where
  informed : registered.listener.onlineState = onlineState
  snapshot : ∃ snapshot, registered.listener.snapshot = some snapshot ∧ Current view snapshot ∧
    (registered.listener.raisedInitialEvent = false →
      registered.listener.shouldRaiseInitialEvent snapshot onlineState = false)
  seen : seen registered.received =
    some (if registered.listener.raisedInitialEvent then contents view.documentSet else Keyed.Items.empty)
  silent : registered.listener.raisedInitialEvent = false → registered.received = []
  shown : Shown becomes registered.received

variable {ℓ : Type} {becomes : DocumentSet query → DocumentSet query → Prop} {view before after : View query} {onlineState : OnlineState} {registered : Registered ℓ query}
  {snapshot : ViewSnapshot query}

theorem seen_initial (snapshot : ViewSnapshot query) : seen [snapshot.fromInitialDocuments] = some (contents snapshot.documents) := by
  have nothing : seen ([] : List (ViewSnapshot query)) = some (contents snapshot.fromInitialDocuments.oldDocuments) := rfl
  exact seen_concat nothing (faithful_fromInitialDocuments snapshot)

theorem shown_initial (holding : becomes Keyed.Sorted.empty snapshot.documents) : Shown becomes [snapshot.fromInitialDocuments] :=
  Shown.nil.concat holding (faithful_fromInitialDocuments snapshot) rfl

theorem onViewSnapshot_first (current : Current view snapshot) (holding : becomes Keyed.Sorted.empty view.documentSet)
    (news : snapshot.documentChanges ≠ [] ∨ snapshot.syncStateChanged) (informed : registered.listener.onlineState = onlineState)
    (first : registered.listener.raisedInitialEvent = false) (silent : registered.received = []) :
    ∃ next, registered.onViewSnapshot snapshot = some next ∧ next.id = registered.id ∧ Following becomes view onlineState next := by
  have shows := current.filtered registered.listener
  have fresh : ¬(snapshot.documentChanges.isEmpty && !snapshot.syncStateChanged) := by
    simpa [imp_iff_not_or] using news
  unfold Registered.onViewSnapshot QueryListener.onViewSnapshot
  rw [if_neg fresh]
  simp only [first, Bool.not_false, if_true, informed]
  split
  next raises =>
    refine ⟨_, rfl, rfl, rfl, ⟨_, rfl, shows, by simp⟩, ?_, by simp, ?_⟩
    · simpa [silent, shows.documents] using seen_initial (registered.listener.filtered snapshot)
    · simpa [silent] using shown_initial (by rw [shows.documents]; exact holding)
  next waits =>
    refine ⟨_, rfl, rfl, rfl, ⟨_, rfl, shows, fun _ => Bool.eq_false_iff.mpr waits⟩, ?_, fun _ => by simpa using silent, ?_⟩
    · simp [silent, seen_nil]
    · simpa [silent] using Shown.nil

theorem created_following (id : ℓ) (options : ListenOptions) (onlineState : OnlineState) (current : Current view snapshot)
    (holding : becomes Keyed.Sorted.empty view.documentSet) (news : snapshot.documentChanges ≠ [] ∨ snapshot.syncStateChanged) :
    ∃ next, (⟨id, ((QueryListener.create query options).onOnlineStateChanged onlineState).1, []⟩ : Registered ℓ query).onViewSnapshot
        snapshot = some next ∧ next.id = id ∧ Following becomes view onlineState next :=
  onViewSnapshot_first current holding news rfl rfl rfl

/-- A listener that has shown the documents before shows those after, with an event
if anything changes that its app sees. -/
theorem onViewSnapshot_again (raised : Raised before after snapshot) (may : becomes before.documentSet after.documentSet)
    (following : Following becomes before onlineState registered) (shown : registered.listener.raisedInitialEvent = true) :
    ∃ next, registered.onViewSnapshot snapshot = some next ∧ next.id = registered.id ∧ Following becomes after onlineState next := by
  have shows := Current.filtered ⟨raised.documents, raised.mutatedKeys, raised.fromCache⟩ registered.listener
  have faithful := raised.faithful.filtered registered.listener
  have old : (registered.listener.filtered snapshot).oldDocuments = before.documentSet :=
    (filtered_oldDocuments registered.listener snapshot).trans raised.oldDocuments
  have held : seen registered.received = some (contents (registered.listener.filtered snapshot).oldDocuments) := by
    rw [following.seen, shown, old]
    rfl
  have fresh : ¬(snapshot.documentChanges.isEmpty && !snapshot.syncStateChanged) := by
    simpa [imp_iff_not_or] using raised.news
  unfold Registered.onViewSnapshot QueryListener.onViewSnapshot
  rw [if_neg fresh]
  simp only [shown, Bool.not_true, Bool.false_eq_true, if_false]
  refine ⟨_, rfl, rfl, following.informed, ⟨_, rfl, shows, by simp⟩, ?_, by simp, ?_⟩
  · simp only [if_true]
    split
    next event =>
      rw [← shows.documents]
      exact seen_concat held faithful
    next hidden =>
      have same : contents after.documentSet = contents (registered.listener.filtered snapshot).oldDocuments := by
        rw [← shows.documents]
        refine contents_eq fun key => faithful.unchanged key ?_
        have none : (registered.listener.filtered snapshot).documentChanges = [] := by
          by_contra some
          exact hidden (by simp [QueryListener.shouldRaiseEvent, some])
        simp [none]
      rw [same]
      simpa using held
  · split
    next => exact following.shown.concat (by rw [old, shows.documents]; exact may) faithful held
    next => simpa using following.shown

theorem onViewSnapshot_following (raised : Raised before after snapshot) (may : becomes before.documentSet after.documentSet) (holding : becomes Keyed.Sorted.empty after.documentSet)
    (following : Following becomes before onlineState registered) :
    ∃ next, registered.onViewSnapshot snapshot = some next ∧ next.id = registered.id ∧ Following becomes after onlineState next := by
  cases shown : registered.listener.raisedInitialEvent with
  | true => exact onViewSnapshot_again raised may following shown
  | false =>
    exact onViewSnapshot_first ⟨raised.documents, raised.mutatedKeys, raised.fromCache⟩ holding raised.news following.informed shown
      (following.silent shown)

theorem Following.quiet (following : Following becomes before onlineState registered) (documents : after.documentSet = before.documentSet)
    (mutatedKeys : after.mutatedKeys = before.mutatedKeys) (syncState : after.syncState = before.syncState) :
    Following becomes after onlineState registered := by
  obtain ⟨informed, ⟨snapshot, held, current, waits⟩, seen, silent, shown⟩ := following
  refine ⟨informed, ⟨snapshot, held, ⟨?_, ?_, ?_⟩, waits⟩, ?_, silent, shown⟩
  · rw [current.documents, documents]
  · rw [current.mutatedKeys, mutatedKeys]
  · rw [current.fromCache, syncState]
  · rw [seen, documents]

theorem onOnlineStateChanged_following (holding : becomes Keyed.Sorted.empty view.documentSet)
    (following : Following becomes view onlineState registered) (other : OnlineState) :
    (registered.onOnlineStateChanged other).id = registered.id ∧ Following becomes view other (registered.onOnlineStateChanged other) := by
  obtain ⟨_, ⟨snapshot, held, current, _⟩, seen, silent, shown⟩ := following
  unfold Registered.onOnlineStateChanged QueryListener.onOnlineStateChanged
  simp only [held]
  split
  next raises =>
    obtain ⟨first, _⟩ := (Bool.and_eq_true _ _).mp raises
    have quiet := silent (by simpa using first)
    refine ⟨trivial, rfl, ⟨snapshot, rfl, current, by simp⟩, ?_, by simp, ?_⟩
    · simpa [quiet, current.documents] using seen_initial snapshot
    · simpa [quiet] using shown_initial (by rw [current.documents]; exact holding)
  next waits =>
    refine ⟨trivial, rfl, ⟨snapshot, rfl, current, ?_⟩, by simpa using seen, by simpa using silent, by simpa using shown⟩
    intro first
    have first : registered.listener.raisedInitialEvent = false := first
    have still : registered.listener.shouldRaiseInitialEvent snapshot other = false := by simpa [first] using waits
    exact still

structure Open (becomes : DocumentSet query → DocumentSet query → Prop) (view : View query) (onlineState : OnlineState) (info : QueryListenersInfo ℓ query) : Prop where
  tracked : Tracked view.documentSet view.mutatedKeys
  holding : becomes Keyed.Sorted.empty view.documentSet
  snapshot : ∃ snapshot, info.viewSnapshot = some snapshot ∧ Current view snapshot ∧
    (snapshot.documentChanges ≠ [] ∨ snapshot.syncStateChanged)
  following : ∀ registered ∈ info.listeners, Following becomes view onlineState registered
  distinct : (info.listeners.map Registered.id).Nodup

/-- Snapshots reach every listener, and leave their order and their names alone. -/
theorem offer_spec {listeners : List (Registered ℓ query)} (takes : ∀ registered ∈ listeners,
      ∃ next, registered.onViewSnapshot snapshot = some next ∧ next.id = registered.id ∧ Following becomes after onlineState next) :
    ∃ next, QueryListenersInfo.offer snapshot listeners = some next ∧ next.map Registered.id = listeners.map Registered.id ∧
      ∀ registered ∈ next, Following becomes after onlineState registered := by
  induction listeners with
  | nil => exact ⟨[], rfl, rfl, by simp⟩
  | cons head rest ih =>
    obtain ⟨informed, took, id, follows⟩ := takes head (by simp)
    obtain ⟨others, offered, ids, rest⟩ := ih fun registered member => takes registered (by simp [member])
    refine ⟨informed :: others, ?_, by simp [id, ids], ?_⟩
    · simp only [QueryListenersInfo.offer, took, Option.bind_some, offered, Option.map_some]
    · intro registered member
      rcases List.mem_cons.mp member with rfl | member
      · exact follows
      · exact rest registered member

/-- What holds of a client between any two calls: a query has a view as long as it
has listeners, and every listener follows it. -/
def Sound (becomes : DocumentSet query → DocumentSet query → Prop) (client : Client ℓ query) : Prop :=
  match client.info, client.view with
  | some info, some view => Open becomes view client.onlineState info
  | none, none => True
  | _, _ => False

theorem onViewChange_open {info : QueryListenersInfo ℓ query} {viewChange : ViewChange query}
    (opened : Open becomes before onlineState info) (emitted : Emitted before after viewChange)
    (may : becomes before.documentSet after.documentSet) (holding : becomes Keyed.Sorted.empty after.documentSet) :
    ∃ following, (⟨onlineState, some info, some after⟩ : Client ℓ query).onViewChange viewChange =
        some ⟨onlineState, some following, some after⟩ ∧ Open becomes after onlineState following := by
  unfold Client.onViewChange
  cases found : viewChange.snapshot with
  | none =>
    obtain ⟨documents, syncState⟩ := emitted.quiet found
    have mutatedKeys : after.mutatedKeys = before.mutatedKeys :=
      Tracked.unique emitted.tracked (documents ▸ opened.tracked)
    obtain ⟨snapshot, held, current, news⟩ := opened.snapshot
    refine ⟨info, rfl, emitted.tracked, holding, ⟨snapshot, held, ⟨?_, ?_, ?_⟩, news⟩, ?_, opened.distinct⟩
    · rw [current.documents, documents]
    · rw [current.mutatedKeys, mutatedKeys]
    · rw [current.fromCache, syncState]
    · intro registered member
      exact (opened.following registered member).quiet documents mutatedKeys syncState
  | some snapshot =>
    have raised := emitted.raised snapshot found
    obtain ⟨listeners, offered, ids, following⟩ :=
      offer_spec fun registered member => onViewSnapshot_following raised may holding (opened.following registered member)
    refine ⟨⟨listeners, some snapshot⟩, ?_, emitted.tracked, holding, ⟨snapshot, rfl, ?_, raised.news⟩, following, ?_⟩
    · simp only [Client.onViewSnapshot, offered, Option.map_some]
    · exact ⟨raised.documents, raised.mutatedKeys, raised.fromCache⟩
    · show (listeners.map Registered.id).Nodup
      rw [ids]
      exact opened.distinct

theorem Following.silent_empty (following : Following becomes view onlineState registered)
    (first : registered.listener.raisedInitialEvent = false)
    (eager : registered.listener.options.waitForSyncWhenOnline = false) : contents view.documentSet = Keyed.Items.empty := by
  obtain ⟨snapshot, _, current, waits⟩ := following.snapshot
  have quiet := waits first
  simp only [QueryListener.shouldRaiseInitialEvent, eager, Bool.false_and, Bool.false_eq_true, if_false] at quiet
  split at quiet
  next => cases quiet
  next =>
    have none : snapshot.documents.list = [] := by
      by_contra some
      simp [some] at quiet
    apply Keyed.Items.ext_list
    simp [contents, Keyed.Items.map, ← current.documents, none, Keyed.Items.empty]

theorem Following.seen_view (following : Following becomes view onlineState registered)
    (ready : registered.listener.raisedInitialEvent ∨ registered.listener.options.waitForSyncWhenOnline = false) :
    Proofs.seen registered.received = some (contents view.documentSet) := by
  rw [following.seen]
  split
  next => rfl
  next silent =>
    have first := Bool.eq_false_iff.mpr silent
    rw [following.silent_empty first (ready.resolve_left silent)]

variable {client next : Client ℓ query}

theorem handleOnlineStateChange_sound (same : ∀ documents, becomes Keyed.Sorted.empty documents → becomes documents documents)
    (other : OnlineState) (sound : Sound becomes client) :
    ∃ next, client.handleOnlineStateChange other = some next ∧ Sound becomes next ∧ next.onlineState = other := by
  obtain ⟨onlineState, info, view⟩ := client
  cases view with
  | none =>
    cases info with
    | some info => cases sound
    | none => exact ⟨_, rfl, trivial, rfl⟩
  | some view =>
    cases info with
    | none => cases sound
    | some info =>
      have opened : Open becomes view onlineState info := sound
      obtain ⟨after, viewChange, applied, emitted, documents, limbo⟩ := applyOnlineStateChange_emitted opened.tracked other
      obtain ⟨following, offered, opened⟩ := onViewChange_open opened emitted (by rw [documents]; exact same _ opened.holding)
        (by rw [documents]; exact opened.holding)
      have changed := fun registered member =>
        onOnlineStateChanged_following opened.holding (opened.following registered member) other
      refine ⟨⟨other, some { following with listeners := following.listeners.map (·.onOnlineStateChanged other) }, some after⟩,
        ?_, ⟨opened.tracked, opened.holding, opened.snapshot, ?_, ?_⟩, rfl⟩
      · simp only [Client.handleOnlineStateChange, applied, Option.bind_some, limbo, List.isEmpty_nil, if_true, offered,
          Option.map_some]
      · intro registered member
        obtain ⟨earlier, held, rfl⟩ := List.mem_map.mp member
        exact (changed earlier held).2
      · have ids : (following.listeners.map (·.onOnlineStateChanged other)).map Registered.id = following.listeners.map Registered.id := by
          rw [List.map_map]
          exact List.map_congr_left fun registered member => (changed registered member).1
        exact ids ▸ opened.distinct

section Identified

variable [DecidableEq ℓ]

theorem removeQueryListener_sound {id : ℓ} (sound : Sound becomes client) (removed : client.removeQueryListener id = some next) :
    Sound becomes next := by
  obtain ⟨onlineState, info, view⟩ := client
  cases info with
  | none => cases removed; exact sound
  | some info =>
    cases view with
    | none => cases sound
    | some view =>
      have opened : Open becomes view onlineState info := sound
      simp only [Client.removeQueryListener, Option.isNone_some, Bool.false_eq_true, if_false] at removed
      split at removed
      next => cases removed; trivial
      next =>
        cases removed
        have kept := @List.eraseP_sublist _ (fun registered => decide (registered.id = id)) info.listeners
        exact ⟨opened.tracked, opened.holding, opened.snapshot, fun registered member => opened.following registered (kept.subset member),
          opened.distinct.sublist (kept.map Registered.id)⟩

end Identified

variable [DecidableEq δ] {allowed : ClientEvent ℓ κ δ → Prop}

/-- What the calls that are allowed do to the documents of a view. -/
structure Law (query : Query κ δ ν) (allowed : ClientEvent ℓ κ δ → Prop) (becomes : DocumentSet query → DocumentSet query → Prop) :
    Prop where
  same : ∀ documents, becomes Keyed.Sorted.empty documents → becomes documents documents
  starts : ∀ {id options documents remoteKeys synthesizedCurrentChange} {view : View query} {snapshot},
    allowed (.addQueryListener id options documents remoteKeys synthesizedCurrentChange) →
    initializeView query documents remoteKeys synthesizedCurrentChange = some (view, snapshot) →
    becomes Keyed.Sorted.empty view.documentSet
  emits : ∀ {changes refill targetChange} {before after : View query} {viewChange},
    Tracked before.documentSet before.mutatedKeys → becomes Keyed.Sorted.empty before.documentSet →
    allowed (.emitNewSnapshots changes refill targetChange) → before.emit changes refill targetChange = some (after, viewChange) →
    becomes before.documentSet after.documentSet ∧ becomes Keyed.Sorted.empty after.documentSet

theorem emitNewSnapshots_sound {changes refill : MaybeDocumentMap κ δ} {targetChange : Option (TargetChange κ)}
    (law : Law query allowed becomes) (sound : Sound becomes client) (legal : allowed (.emitNewSnapshots changes refill targetChange))
    (emits : client.emitNewSnapshots changes refill targetChange = some next) : Sound becomes next := by
  obtain ⟨onlineState, info, view⟩ := client
  cases view with
  | none => cases emits; exact sound
  | some view =>
    cases info with
    | none => cases sound
    | some info =>
      have opened : Open becomes view onlineState info := sound
      obtain ⟨⟨after, viewChange⟩, emitted, dispatched⟩ := Option.bind_eq_some_iff.mp emits
      obtain ⟨may, holding⟩ := law.emits opened.tracked opened.holding legal emitted
      obtain ⟨following, offered, opened⟩ := onViewChange_open opened (emit_emitted opened.tracked emitted) may holding
      cases offered.symm.trans dispatched
      exact opened

section Laws

variable {holds : Document κ δ → Prop}

def Offers (query : Query κ δ ν) (holds : Document κ δ → Prop) : ClientEvent ℓ κ δ → Prop
  | .addQueryListener _ _ documents _ _ => Offered query holds documents
  | .emitNewSnapshots changes refill _ => Offered query holds changes ∧ Offered query holds refill
  | .removeQueryListener _ | .handleOnlineStateChange _ | .onError => True

theorem law_offers : @Law _ _ _ _ _ _ ℓ _ query (Offers query holds)
    fun _ after => Holding (fun document => query.matches document ∧ holds document) after where
  same _ holding := holding
  starts legal opened := (initializeView_raised opened).2.2 _ fun document member fits => ⟨fits, legal document member fits⟩
  emits tracked holding legal emitted := by
    have kept := emit_holding tracked holding (fun document member fits => ⟨fits, legal.1 document member fits⟩)
      (fun document member fits => ⟨fits, legal.2 document member fits⟩) emitted
    exact ⟨kept, kept⟩

/-- Calls that offer documents with a property and take none away. -/
def Grows (query : Query κ δ ν) (holds : Document κ δ → Prop) (event : ClientEvent ℓ κ δ) : Prop :=
  Offers query holds event ∧ ∀ changes refill targetChange, event = .emitNewSnapshots changes refill targetChange → Retains query changes

theorem law_grows (unlimited : query.limitType = .none) : @Law _ _ _ _ _ _ ℓ _ query (Grows query holds) fun before after =>
    Holding (fun document => query.matches document ∧ holds document) after ∧
      ∀ key, (before.find key).isSome → (after.find key).isSome where
  same _ holding := ⟨holding.1, fun _ held => held⟩
  starts legal opened := ⟨law_offers.starts legal.1 opened, fun _ held => by cases held⟩
  emits {changes refill targetChange before after viewChange} tracked holding legal emitted := by
    have kept := (law_offers.emits tracked holding.1 legal.1 emitted).1
    have grown : ∀ key, (before.documentSet.find key).isSome → (after.documentSet.find key).isSome := by
      intro key held
      obtain ⟨first, final, computed, applied, same | ⟨needs, _⟩⟩ := emit_computed tracked emitted
      · subst same
        rw [(applyChanges_emitted computed.difference computed.tracked applied).2]
        exact computed.retains unlimited (legal.2 changes refill targetChange rfl) (fun document member => (holding.1 document member).1) held
      · rw [computed.refill] at needs
        obtain ⟨maybe, _, asks⟩ := List.any_eq_true.mp needs
        simp [asksRefill_unlimited unlimited] at asks
    exact ⟨⟨kept, grown⟩, kept, fun _ held => by cases held⟩

end Laws

section Identified

variable [DecidableEq ℓ]

theorem addQueryListener_sound {id : ℓ} {options : ListenOptions} {documents : MaybeDocumentMap κ δ} {remoteKeys : Finset κ}
    {synthesizedCurrentChange : Option (TargetChange κ)} (law : Law query allowed becomes) (sound : Sound becomes client)
    (legal : allowed (.addQueryListener id options documents remoteKeys synthesizedCurrentChange))
    (added : client.addQueryListener id options documents remoteKeys synthesizedCurrentChange = some next) : Sound becomes next := by
  obtain ⟨onlineState, info, view⟩ := client
  simp only [Client.addQueryListener] at added
  split at added
  next => cases added
  next permitted =>
    cases info with
    | none =>
      cases view with
      | some view => cases sound
      | none =>
        simp only [Option.getD_none, Option.bind_some, Option.isNone_none, if_true, List.nil_append, Client.listen,
          Option.isSome_none, Bool.false_eq_true, if_false] at added
        obtain ⟨⟨view, snapshot⟩, opened, dispatched⟩ := Option.bind_eq_some_iff.mp added
        obtain ⟨raised, tracked, _⟩ := initializeView_raised opened
        have holding := law.starts legal opened
        have current : Current view snapshot := ⟨raised.documents, raised.mutatedKeys, raised.fromCache⟩
        obtain ⟨registered, took, _, following⟩ := created_following id options onlineState current holding raised.news
        simp only [Client.onViewSnapshot, QueryListenersInfo.offer, took, Option.bind_some, Option.map_some,
          Option.some.injEq] at dispatched
        cases dispatched
        refine ⟨tracked, holding, ⟨snapshot, rfl, current, raised.news⟩, ?_, by simp⟩
        intro other member
        cases List.mem_singleton.mp member
        exact following
    | some info =>
      cases view with
      | none => cases sound
      | some view =>
        have opened : Open becomes view onlineState info := sound
        obtain ⟨snapshot, held, current, news⟩ := opened.snapshot
        obtain ⟨registered, took, id', following⟩ := created_following id options onlineState current opened.holding news
        simp only [Option.getD_some, held, took, Option.bind_some, Option.isNone_some, Bool.false_eq_true, if_false,
          Option.some.injEq] at added
        cases added
        refine ⟨opened.tracked, opened.holding, ⟨snapshot, rfl, current, news⟩, ?_, ?_⟩
        · intro other member
          rcases List.mem_append.mp member with old | new
          · exact opened.following other old
          · cases List.mem_singleton.mp new
            exact following
        · have fresh : id ∉ info.listeners.map Registered.id := (not_or.mp permitted).2
          rw [List.map_append, List.map_singleton, id']
          refine List.nodup_append.mpr ⟨opened.distinct, by simp, ?_⟩
          intro old member new single same
          cases List.mem_singleton.mp single
          exact fresh (same ▸ member)

theorem step_sound {event : ClientEvent ℓ κ δ} (law : Law query allowed becomes) (sound : Sound becomes client)
    (legal : allowed event) (stepped : client.step event = some next) : Sound becomes next := by
  cases event with
  | addQueryListener id options documents remoteKeys synthesizedCurrentChange => exact addQueryListener_sound law sound legal stepped
  | removeQueryListener id => exact removeQueryListener_sound sound stepped
  | emitNewSnapshots changes refill targetChange => exact emitNewSnapshots_sound law sound legal stepped
  | handleOnlineStateChange other =>
    obtain ⟨after, handled, sound, _⟩ := handleOnlineStateChange_sound law.same other sound
    cases handled.symm.trans stepped
    exact sound
  | onError => cases stepped; trivial

theorem run_open {events : List (ClientEvent ℓ κ δ)} {final : Client ℓ query} {info : QueryListenersInfo ℓ query}
    (law : Law query allowed becomes) (legal : ∀ event ∈ events, allowed event) (ran : Client.start.run events = some final)
    (listening : final.info = some info) : ∃ view, final.view = some view ∧ Open becomes view final.onlineState info := by
  have keeps : ∀ (state : Client ℓ query) event next, Sound becomes state → allowed event →
      state.step event = some next → Sound becomes next :=
    fun _ _ _ sound legal stepped => step_sound law sound legal stepped
  have initial : Sound becomes (Client.start : Client ℓ query) := trivial
  have sound := Transition.run_invariant keeps initial legal ran
  unfold Sound at sound
  rw [listening] at sound
  cases viewed : final.view with
  | none => simp [viewed] at sound
  | some view => exact ⟨view, rfl, by simpa [viewed] using sound⟩

/-- Whatever happened, each event takes the app from the documents that it has been
shown to those of the event, and the last one to those of the view. They all match
the query, and have what all documents have that the callers offer. -/
theorem received_events_show_view {holds : Document κ δ → Prop} {events : List (ClientEvent ℓ κ δ)} {final : Client ℓ query}
    {info : QueryListenersInfo ℓ query} (offers : ∀ event ∈ events, Offers query holds event)
    (ran : Client.start.run events = some final) (listening : final.info = some info) :
    ∃ view, final.view = some view ∧ ∀ registered ∈ info.listeners,
      Shown (fun _ after => Holding (fun document => query.matches document ∧ holds document) after) registered.received ∧
        (registered.listener.raisedInitialEvent ∨ registered.listener.options.waitForSyncWhenOnline = false →
          seen registered.received = some (contents view.documentSet)) := by
  obtain ⟨view, viewed, opened⟩ := run_open law_offers offers ran listening
  refine ⟨view, viewed, ?_⟩
  intro registered member
  have following := opened.following registered member
  exact ⟨following.shown, following.seen_view⟩

end Identified

def everything : Query Nat Nat Nat := ⟨fun _ => true, [], [], .none, Target.kNoLimit, none, none⟩

def oneChange : List (ClientEvent Nat Nat Nat) :=
  [.addQueryListener 0 ListenOptions.defaultOptions Keyed.Sorted.empty ∅ none,
    .emitNewSnapshots (Keyed.Sorted.empty.insert (.document ⟨1, 5, ⟨1, 0⟩, .synced⟩)) Keyed.Sorted.empty none]

theorem oneChange_offers : ∀ event ∈ oneChange, Offers everything (fun document => document.key = 1) event := by
  intro event member
  rcases List.mem_cons.mp member with rfl | member
  · intro document held
    cases held
  · cases List.mem_singleton.mp member
    refine ⟨?_, ?_⟩
    · intro document held _
      cases List.mem_singleton.mp held
      rfl
    · intro document held
      cases held

theorem one_change_shows_view :
    ∃ (final : Client Nat everything) (info : QueryListenersInfo Nat everything) (view : View everything),
      Client.start.run oneChange = some final ∧ final.info = some info ∧ final.view = some view ∧ ∀ registered ∈ info.listeners,
        Shown (fun _ after => Holding (fun document => everything.matches document ∧ document.key = 1) after) registered.received ∧
          (registered.listener.raisedInitialEvent ∨ registered.listener.options.waitForSyncWhenOnline = false →
            seen registered.received = some (contents view.documentSet)) := by
  obtain ⟨final, info, ran, listening⟩ : ∃ (final : Client Nat everything) (info : QueryListenersInfo Nat everything),
      Client.start.run oneChange = some final ∧ final.info = some info := ⟨_, _, rfl, rfl⟩
  obtain ⟨view, viewed, shown⟩ := received_events_show_view oneChange_offers ran listening
  exact ⟨final, info, view, ran, listening, viewed, shown⟩

end FireChat.Core.Proofs
