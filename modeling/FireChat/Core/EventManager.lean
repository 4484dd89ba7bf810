import FireChat.Core.Listener

/-! One query of a client: the view that the sync engine keeps for it and the
listeners that the event manager fans its snapshots out to. Queries share
nothing but the online state and the documents that are handed to all views. -/

namespace FireChat.Core

variable {κ δ ν : Type} [LinearOrder κ] [DecidableEq δ] [Ord ν] [Std.TransOrd ν] {query : Query κ δ ν}

/-- What `EmitNewSnapshotsAndNotifyLocalStore` does to one view. `refill` is the
result of running the query again, which is read only when it is needed. -/
def View.emit (view : View query) (changes refill : MaybeDocumentMap κ δ) (targetChange : Option (TargetChange κ)) :
    Option (View query × ViewChange query) :=
  (view.computeDocumentChanges changes none).bind fun viewDocChanges =>
    (if viewDocChanges.needsRefill then view.computeDocumentChanges refill (some viewDocChanges) else some viewDocChanges).bind
      fun viewDocChanges => view.applyChanges viewDocChanges targetChange

/-- `InitializeViewAndComputeSnapshot`, on the result of running the query. The
target change is there if another query has the same target. -/
def initializeView (query : Query κ δ ν) (documents : MaybeDocumentMap κ δ) (remoteKeys : Finset κ)
    (synthesizedCurrentChange : Option (TargetChange κ)) : Option (View query × ViewSnapshot query) :=
  let view := View.init query remoteKeys
  (view.computeDocumentChanges documents none).bind fun viewDocChanges =>
    (view.applyChanges viewDocChanges synthesizedCurrentChange).bind fun (view, viewChange) =>
      viewChange.snapshot.map fun snapshot => (view, snapshot)

/-- A listener of the event manager. `received` lists the events it has raised so
far; it is a ghost that no code reads. -/
structure Registered (ℓ : Type) (query : Query κ δ ν) where
  id : ℓ
  listener : QueryListener query
  received : List (ViewSnapshot query)

namespace Registered

variable {ℓ : Type}

def onViewSnapshot (registered : Registered ℓ query) (snapshot : ViewSnapshot query) : Option (Registered ℓ query) :=
  (registered.listener.onViewSnapshot snapshot).map fun (listener, raised) =>
    { registered with listener := listener, received := registered.received ++ raised.toList }

def onOnlineStateChanged (registered : Registered ℓ query) (onlineState : OnlineState) : Registered ℓ query :=
  let (listener, raised) := registered.listener.onOnlineStateChanged onlineState
  { registered with listener := listener, received := registered.received ++ raised.toList }

end Registered

structure QueryListenersInfo (ℓ : Type) (query : Query κ δ ν) where
  listeners : List (Registered ℓ query)
  viewSnapshot : Option (ViewSnapshot query)

/-- `queries_` of the event manager and `query_views_by_query_` of the sync engine, at one query. -/
structure Client (ℓ : Type) (query : Query κ δ ν) where
  onlineState : OnlineState
  info : Option (QueryListenersInfo ℓ query)
  view : Option (View query)

inductive ClientEvent (ℓ κ δ : Type) [Ord κ] where
  | addQueryListener (id : ℓ) (options : ListenOptions) (documents : MaybeDocumentMap κ δ) (remoteKeys : Finset κ)
      (synthesizedCurrentChange : Option (TargetChange κ))
  | removeQueryListener (id : ℓ)
  | emitNewSnapshots (changes refill : MaybeDocumentMap κ δ) (targetChange : Option (TargetChange κ))
  | handleOnlineStateChange (onlineState : OnlineState)
  | onError

variable {ℓ : Type}

def QueryListenersInfo.offer (snapshot : ViewSnapshot query) : List (Registered ℓ query) → Option (List (Registered ℓ query))
  | [] => some []
  | registered :: rest =>
    (registered.onViewSnapshot snapshot).bind fun informed => (offer snapshot rest).map fun others => informed :: others

namespace Client

def start : Client ℓ query := ⟨.unknown, none, none⟩

/-- `OnViewSnapshots`, for the snapshot of this query. -/
def onViewSnapshot (client : Client ℓ query) (snapshot : ViewSnapshot query) : Option (Client ℓ query) :=
  match client.info with
  | none => some client
  | some info =>
    (QueryListenersInfo.offer snapshot info.listeners).map fun listeners =>
      { client with info := some ⟨listeners, some snapshot⟩ }

def onViewChange (client : Client ℓ query) (viewChange : ViewChange query) : Option (Client ℓ query) :=
  match viewChange.snapshot with
  | none => some client
  | some snapshot => client.onViewSnapshot snapshot

def listen (client : Client ℓ query) (documents : MaybeDocumentMap κ δ) (remoteKeys : Finset κ)
    (synthesizedCurrentChange : Option (TargetChange κ)) : Option (Client ℓ query) :=
  if client.view.isSome then none
  else
    (initializeView query documents remoteKeys synthesizedCurrentChange).bind fun (view, snapshot) =>
      { client with view := some view }.onViewSnapshot snapshot

variable [DecidableEq ℓ]

def addQueryListener (client : Client ℓ query) (id : ℓ) (options : ListenOptions) (documents : MaybeDocumentMap κ δ)
    (remoteKeys : Finset κ) (synthesizedCurrentChange : Option (TargetChange κ)) : Option (Client ℓ query) :=
  let firstListen := client.info.isNone
  let queryInfo := client.info.getD ⟨[], none⟩
  let (listener, raisedEvent) := (QueryListener.create query options).onOnlineStateChanged client.onlineState
  if raisedEvent.isSome ∨ id ∈ queryInfo.listeners.map Registered.id then none
  else
    let registered : Registered ℓ query := ⟨id, listener, []⟩
    let offered :=
      match queryInfo.viewSnapshot with
      | none => some registered
      | some snapshot => registered.onViewSnapshot snapshot
    offered.bind fun registered =>
      let added := { client with info := some { queryInfo with listeners := queryInfo.listeners ++ [registered] } }
      if firstListen then added.listen documents remoteKeys synthesizedCurrentChange else some added

def removeQueryListener (client : Client ℓ query) (id : ℓ) : Option (Client ℓ query) :=
  match client.info with
  | none => some client
  | some info =>
    let listeners := info.listeners.eraseP fun registered => registered.id = id
    if listeners.isEmpty then
      if client.view.isNone then none else some { client with info := none, view := none }
    else some { client with info := some { info with listeners := listeners } }

def emitNewSnapshots (client : Client ℓ query) (changes refill : MaybeDocumentMap κ δ)
    (targetChange : Option (TargetChange κ)) : Option (Client ℓ query) :=
  match client.view with
  | none => some client
  | some view =>
    (view.emit changes refill targetChange).bind fun (view, viewChange) =>
      { client with view := some view }.onViewChange viewChange

def handleOnlineStateChange (client : Client ℓ query) (onlineState : OnlineState) : Option (Client ℓ query) :=
  let applied :=
    match client.view with
    | none => some client
    | some view =>
      (view.applyOnlineStateChange onlineState).bind fun (view, viewChange) =>
        if viewChange.limboChanges.isEmpty then { client with view := some view }.onViewChange viewChange else none
  applied.map fun client =>
    { client with
      onlineState := onlineState
      info := client.info.map fun info =>
        { info with listeners := info.listeners.map fun registered => registered.onOnlineStateChanged onlineState } }

/-- A rejected listen removes the view and, after telling them, all listeners. -/
def onError (client : Client ℓ query) : Client ℓ query := { client with info := none, view := none }

/-- The result is `none` where the source fails an assertion, or adds a listener that is there already. -/
def step (client : Client ℓ query) : ClientEvent ℓ κ δ → Option (Client ℓ query)
  | .addQueryListener id options documents remoteKeys synthesizedCurrentChange =>
    client.addQueryListener id options documents remoteKeys synthesizedCurrentChange
  | .removeQueryListener id => client.removeQueryListener id
  | .emitNewSnapshots changes refill targetChange => client.emitNewSnapshots changes refill targetChange
  | .handleOnlineStateChange onlineState => client.handleOnlineStateChange onlineState
  | .onError => some client.onError

abbrev run (client : Client ℓ query) (events : List (ClientEvent ℓ κ δ)) : Option (Client ℓ query) :=
  Transition.run step client events

end Client

end FireChat.Core
