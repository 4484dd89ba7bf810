import FireChat.Proofs.Listening

/-! The assertions of the view, the listeners and the event manager hold in every
run, as long as the server and the local store keep to their side: a target change
modifies only documents of the target, and a refill does not itself need one. -/

namespace FireChat.Core.Proofs

variable {κ δ ν : Type} [LinearOrder κ] [Ord ν] {query : Query κ δ ν} {view : View query}

/-- The server modifies only documents that it has assigned to the target. -/
def TargetKnown (view : View query) (targetChange : Option (TargetChange κ)) : Prop :=
  ∀ change, targetChange = some change → change.modifiedDocuments ⊆ view.syncedDocuments ∪ change.addedDocuments

theorem applyChanges_isSome {docChanges : ViewDocumentChanges query} {targetChange : Option (TargetChange κ)}
    (full : docChanges.needsRefill = false) (known : TargetKnown view targetChange) :
    (view.applyChanges docChanges targetChange).isSome := by
  unfold View.applyChanges
  simp only [full, Bool.false_eq_true, if_false, Option.isSome_map]
  cases targetChange with
  | none => rfl
  | some change =>
    simp only [View.applyTargetChange]
    rw [if_pos (known change rfl)]
    rfl

theorem applyChanges_syncState {after : View query} {docChanges : ViewDocumentChanges query} {targetChange : Option (TargetChange κ)}
    {viewChange : ViewChange query} (applied : view.applyChanges docChanges targetChange = some (after, viewChange)) :
    after.syncState ≠ .none := by
  simp only [View.applyChanges] at applied
  split at applied
  next => cases applied
  next =>
    obtain ⟨targeted, _, outcome⟩ := Option.map_eq_some_iff.mp applied
    obtain ⟨rfl, _⟩ := Prod.mk.inj outcome
    simp only [View.newSyncState]
    split
    · simp
    · simp

variable [DecidableEq δ] [Std.TransOrd ν]

/-- What the local store and the server owe a view that is to take their changes. -/
structure Admits (view : View query) (changes refill : MaybeDocumentMap κ δ) (targetChange : Option (TargetChange κ)) : Prop where
  known : TargetKnown view targetChange
  calm : ∀ computed, view.computeDocumentChanges changes none = some computed → computed.needsRefill →
    refill.list.any (asksRefill view computed.documentSet) = false

theorem emit_isSome {changes refill : MaybeDocumentMap κ δ} {targetChange : Option (TargetChange κ)}
    (tracked : Tracked view.documentSet view.mutatedKeys) (admits : Admits view changes refill targetChange) :
    (view.emit changes refill targetChange).isSome := by
  obtain ⟨first, computed, ran⟩ := computeDocumentChanges_first tracked changes
  simp only [View.emit, ran, Option.bind_some]
  split
  next needs =>
    obtain ⟨second, again, rerun⟩ := @computeDocumentChanges_computed _ _ _ query _ _ _ _ view (some first)
      computed.difference computed.tracked refill
    have full : second.needsRefill = false := again.refill.trans (admits.calm first ran needs)
    rw [rerun, if_neg (by simp [full])]
    exact applyChanges_isSome full admits.known
  next full => exact applyChanges_isSome (Bool.eq_false_iff.mpr full) admits.known

theorem initializeView_isSome (documents : MaybeDocumentMap κ δ) {remoteKeys : Finset κ}
    {synthesizedCurrentChange : Option (TargetChange κ)} (known : TargetKnown (View.init query remoteKeys) synthesizedCurrentChange) :
    (initializeView query documents remoteKeys synthesizedCurrentChange).isSome := by
  have tracked : Tracked (View.init query remoteKeys).documentSet (View.init query remoteKeys).mutatedKeys := by
    intro key
    simp [View.init, Keyed.Sorted.empty, Keyed.Items.empty, Keyed.Items.find]
  obtain ⟨computed, exactly, ran⟩ := computeDocumentChanges_first tracked documents
  have full : computed.needsRefill = false := by
    rw [exactly.refill, List.any_eq_false]
    intro maybe _
    simp [asksRefill_empty (rfl : ((View.init query remoteKeys).start none).documentSet.list = [])]
  obtain ⟨⟨view, viewChange⟩, applied⟩ := Option.isSome_iff_exists.mp (applyChanges_isSome full known)
  obtain ⟨emitted, _⟩ := applyChanges_emitted exactly.difference exactly.tracked applied
  simp only [initializeView, ran, Option.bind_some, applied, Option.isSome_map]
  cases found : viewChange.snapshot with
  | some snapshot => rfl
  | none =>
    -- A view starts in no sync state at all, so its first changes always are news.
    exact absurd (emitted.quiet found).2 (applyChanges_syncState applied)

variable {ℓ : Type} [DecidableEq ℓ] {client : Client ℓ query}

abbrev Anything (_ _ : DocumentSet query) : Prop := True

def Permitted (client : Client ℓ query) : ClientEvent ℓ κ δ → Prop
  | .addQueryListener id _ _ remoteKeys synthesizedCurrentChange =>
    (∀ info, client.info = some info → id ∉ info.listeners.map Registered.id) ∧
      (client.info = none → TargetKnown (View.init query remoteKeys) synthesizedCurrentChange)
  | .emitNewSnapshots changes refill targetChange =>
    ∀ view, client.view = some view → Admits view changes refill targetChange
  | .removeQueryListener _ | .handleOnlineStateChange _ | .onError => True

theorem step_enabled {event : ClientEvent ℓ κ δ} (sound : Sound Anything client) (permitted : Permitted client event) :
    ∃ next, client.step event = some next := by
  cases event with
  | addQueryListener id options documents remoteKeys synthesizedCurrentChange =>
    obtain ⟨fresh, known⟩ := permitted
    obtain ⟨onlineState, info, view⟩ := client
    cases info with
    | none =>
      cases view with
      | some view => cases sound
      | none =>
        obtain ⟨⟨view, snapshot⟩, opened⟩ := Option.isSome_iff_exists.mp (initializeView_isSome documents (known rfl))
        obtain ⟨raised, _⟩ := initializeView_raised opened
        have holding : Anything (Keyed.Sorted.empty : DocumentSet query) view.documentSet := trivial
        obtain ⟨registered, took, _⟩ := created_following id options onlineState
          ⟨raised.documents, raised.mutatedKeys, raised.fromCache⟩ holding raised.news
        refine ⟨⟨onlineState, some ⟨[registered], some snapshot⟩, some view⟩, ?_⟩
        have quiet : ((QueryListener.create query options).onOnlineStateChanged onlineState).2 = none := rfl
        simp [Client.step, Client.addQueryListener, quiet, Client.listen, opened, Client.onViewSnapshot,
          QueryListenersInfo.offer, took]
    | some info =>
      cases view with
      | none => cases sound
      | some view =>
        have opened : Open Anything view onlineState info := sound
        obtain ⟨snapshot, held, current, news⟩ := opened.snapshot
        have holding : Anything (Keyed.Sorted.empty : DocumentSet query) view.documentSet := trivial
        obtain ⟨registered, took, _⟩ := created_following id options onlineState current holding news
        refine ⟨⟨onlineState, some ⟨info.listeners ++ [registered], some snapshot⟩, some view⟩, ?_⟩
        have quiet : ((QueryListener.create query options).onOnlineStateChanged onlineState).2 = none := rfl
        have new : id ∉ info.listeners.map Registered.id := fresh info rfl
        simp only [Client.step, Client.addQueryListener, quiet, Option.getD_some, Option.isSome_none, Bool.false_eq_true,
          false_or, new, if_false, held, took, Option.bind_some, Option.isNone_some]
  | removeQueryListener id =>
    obtain ⟨onlineState, info, view⟩ := client
    cases info with
    | none => exact ⟨_, rfl⟩
    | some info =>
      cases view with
      | none => cases sound
      | some view =>
        simp only [Client.step, Client.removeQueryListener, Option.isNone_some, Bool.false_eq_true, if_false]
        split
        · exact ⟨_, rfl⟩
        · exact ⟨_, rfl⟩
  | emitNewSnapshots changes refill targetChange =>
    obtain ⟨onlineState, info, view⟩ := client
    cases view with
    | none => exact ⟨_, rfl⟩
    | some view =>
      cases info with
      | none => cases sound
      | some info =>
        have opened : Open Anything view onlineState info := sound
        obtain ⟨⟨after, viewChange⟩, emitted⟩ := Option.isSome_iff_exists.mp (emit_isSome opened.tracked (permitted view rfl))
        obtain ⟨following, dispatched, _⟩ := onViewChange_open opened (emit_emitted opened.tracked emitted) trivial trivial
        exact ⟨_, Option.bind_eq_some_iff.mpr ⟨_, emitted, dispatched⟩⟩
  | handleOnlineStateChange onlineState =>
    obtain ⟨next, handled, _⟩ := handleOnlineStateChange_sound (fun _ _ => trivial) onlineState sound
    exact ⟨next, handled⟩
  | onError => exact ⟨_, rfl⟩

/-- No assertion fails in a run whose calls are all permitted. -/
theorem permitted_run_never_fails {events : List (ClientEvent ℓ κ δ)}
    (met : @Transition.Stepwise (Client ℓ query) _ Client.step Permitted Client.start events) :
    ∃ final : Client ℓ query, Client.start.run events = some final := by
  have law : Law query (fun _ : ClientEvent ℓ κ δ => True) Anything :=
    ⟨fun _ _ => trivial, fun _ _ => trivial, fun _ _ _ _ => ⟨trivial, trivial⟩⟩
  have advances : ∀ (client : Client ℓ query) event, Sound Anything client → Permitted client event →
      ∃ next, client.step event = some next ∧ Sound Anything next := by
    intro client event sound permitted
    obtain ⟨next, stepped⟩ := step_enabled sound permitted
    exact ⟨next, stepped, step_sound law sound trivial stepped⟩
  have initial : Sound Anything (Client.start : Client ℓ query) := trivial
  obtain ⟨final, ran, _⟩ := Transition.stepwise_total advances initial met
  exact ⟨final, ran⟩

def smallest : Query Nat Nat Nat := ⟨fun _ => true, [], [⟨.field some, .ascending⟩], .first, 1, none, none⟩

def secondDocument : MaybeDocument Nat Nat := .document ⟨2, 6, ⟨1, 0⟩, .synced⟩

/-- A full limit loses its only document, and is filled again with the next one. -/
def oneRefill : List (ClientEvent Nat Nat Nat) :=
  [.addQueryListener 0 ListenOptions.defaultOptions
      ((Keyed.Sorted.empty.insert (.document ⟨1, 5, ⟨1, 0⟩, .synced⟩)).insert secondDocument) ∅ none,
    .emitNewSnapshots (Keyed.Sorted.empty.insert (.noDocument 1 ⟨2, 0⟩ false)) (Keyed.Sorted.empty.insert secondDocument) none]

theorem oneRefill_permitted :
    @Transition.Stepwise (Client Nat smallest) _ Client.step Permitted Client.start oneRefill := by
  refine ⟨⟨?_, ?_⟩, fun next stepped => ⟨?_, fun _ _ => trivial⟩⟩
  · intro info listening
    cases listening
  · intro _ change none
    cases none
  · intro view viewed
    cases stepped
    cases viewed
    refine ⟨fun _ none => (nomatch none), ?_⟩
    intro computed ran _
    cases ran
    decide

theorem one_refill_never_fails : ∃ final : Client Nat smallest, Client.start.run oneRefill = some final ∧
    final.view.map (fun view => (contents view.documentSet).list) = some [(2, 6)] := by
  obtain ⟨final, ran⟩ := permitted_run_never_fails oneRefill_permitted
  refine ⟨final, ran, ?_⟩
  cases ran
  rfl

end FireChat.Core.Proofs
