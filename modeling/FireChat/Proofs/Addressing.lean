import FireChat.Listener
import FireChat.Proofs.Mirroring

/-! Which user's mailbox a document lies in decides whom it names. A writer puts
the two uids into four paths; a reader gets the partner back from the fields and
from who is signed in. -/

namespace FireChat

theorem Request.Registered.distinct_of_between {registered : String → Prop} {request : Request} {owner partner : String}
    (legal : request.Registered registered) (between : request.Between owner partner) : owner ≠ partner := by
  have different := legal.distinct
  rcases between with ⟨rfl, rfl⟩ | ⟨rfl, rfl⟩
  · exact different
  · exact Ne.symm different

namespace Addressing

variable {owner partner : String} {request : Request} (now : Timestamp)

theorem decoded_names (between : request.Between owner partner) :
    let message := Message.init (some owner) now request.data
    message.fromId = owner ∧ message.toId = partner ∨ message.fromId = partner ∧ message.toId = owner := by
  rw [Decoding.init_data]
  rcases between with ⟨rfl, rfl⟩ | ⟨rfl, rfl⟩
  · exact Or.inl ⟨rfl, rfl⟩
  · exact Or.inr ⟨rfl, rfl⟩

theorem decoded_sender :
    (Message.init (some owner) now request.data).isFromCurrentUser = true ↔ request.currentUid = owner := by
  rw [Decoding.init_data]
  simp

/-- The signed-in owner of a mailbox decodes the partner, whoever sent the message. -/
theorem decoded_partner (distinct : owner ≠ partner) (between : request.Between owner partner) :
    (Message.init (some owner) now request.data).chatPartnerId = partner := by
  rw [Decoding.init_data, Message.chatPartnerId]
  rcases between with ⟨rfl, rfl⟩ | ⟨rfl, rfl⟩
  · simp
  · simp [Ne.symm distinct]

theorem addressed_partner {data : Fields} (addressed : Addressed owner partner data) :
    (Message.init (some owner) now data).chatPartnerId = partner := by
  obtain ⟨distinct, ⟨fromId, toId⟩ | ⟨fromId, toId⟩⟩ := addressed
  · simp [Message.chatPartnerId, Message.init, fromId, toId]
  · simp [Message.chatPartnerId, Message.init, fromId, toId, Ne.symm distinct]

theorem addressed_data (distinct : owner ≠ partner) (between : request.Between owner partner) :
    Addressed owner partner request.data := by
  refine ⟨distinct, ?_⟩
  rw [Decoding.data_fromId, Decoding.data_toId]
  rcases between with ⟨rfl, rfl⟩ | ⟨rfl, rfl⟩
  · exact Or.inl ⟨rfl, rfl⟩
  · exact Or.inr ⟨rfl, rfl⟩

end Addressing

namespace Delivery

variable {registered : String → Prop} {verdict : Nat → Write → Option NSError} {events : List Event} {state : State}

theorem stored_between (reserved : ¬ registered recentMessages) (users : Registered registered events)
    (ran : run verdict initial events = some state) {owner partner : String} (other : registered partner)
    {document : Document}
    (stored : (∃ id, ⟨id, document⟩ ∈ (state.log owner partner).entries) ∨ state.recent owner partner = some document) :
    ∃ request, state.requests[document.origin]? = some request ∧ request.Registered registered ∧
      request.Between owner partner ∧ document.data = request.data := by
  have known : ∀ {path id upload write}, Origin state path ⟨id, document⟩ upload write →
      ∃ request, state.requests[document.origin]? = some request ∧ request.Registered registered ∧
        request = upload.request := by
    intro path id upload write origin
    exact ⟨upload.request, found_request origin.found, call_registered users ran origin.found, rfl⟩
  rcases stored with ⟨id, member⟩ | summary
  · obtain ⟨upload, write, origin⟩ := (run_valid ran).origin ⟨owner, partner⟩ _ member
    obtain ⟨request, asked, legal, rfl⟩ := known origin
    refine ⟨_, asked, legal, ?_, origin.data⟩
    have place := origin.path
    cases write
    all_goals simp only [Request.path, Path.mk.injEq] at place
    · exact Or.inl place
    · exact Or.inr ⟨place.2, place.1⟩
    all_goals exact absurd (place.2 ▸ other) reserved
  · have member : (⟨.named partner, document⟩ : Sigma fun _ : DocumentId => Document) ∈
        (state.messages ⟨owner, recentMessages⟩).entries := AList.mem_lookup_iff.mp summary
    obtain ⟨upload, write, origin⟩ := (run_valid ran).origin ⟨owner, recentMessages⟩ _ member
    obtain ⟨request, asked, legal, rfl⟩ := known origin
    refine ⟨_, asked, legal, ?_, origin.data⟩
    have place := origin.path
    have named := origin.names
    cases write
    all_goals simp only [Request.path, Request.Names, Path.mk.injEq, reduceCtorEq, exists_false, DocumentId.named.injEq] at place named
    · exact Or.inl ⟨place.1, named.symm⟩
    · exact Or.inr ⟨named.symm, place.1⟩

private theorem summary_named (reserved : ¬ registered recentMessages) (users : Registered registered events)
    (ran : run verdict initial events = some state) {owner : String} {entry : Sigma fun _ : DocumentId => Document}
    (member : entry ∈ (state.messages ⟨owner, recentMessages⟩).entries) :
    ∃ partner, registered partner ∧ entry.1 = .named partner := by
  obtain ⟨upload, write, origin⟩ := (run_valid ran).origin ⟨owner, recentMessages⟩ entry member
  obtain ⟨sender, recipient, _⟩ := call_registered users ran origin.found
  have place := origin.path
  have named := origin.names
  cases write
  all_goals simp only [Request.path, Path.mk.injEq] at place
  · exact absurd (place.2 ▸ recipient) reserved
  · exact absurd (place.2 ▸ sender) reserved
  · exact ⟨_, recipient, named⟩
  · exact ⟨_, sender, named⟩

theorem recent_filed (reserved : ¬ registered recentMessages) (users : Registered registered events)
    (ran : run verdict initial events = some state) {owner : String} {entry : Sigma fun _ : DocumentId => Document}
    (member : entry ∈ (state.messages ⟨owner, recentMessages⟩).entries) :
    ∃ partner, entry.1 = .named partner ∧ Addressed owner partner entry.2.data := by
  obtain ⟨partner, other, named⟩ := summary_named reserved users ran member
  have summary : state.recent owner partner = some entry.2 := by
    obtain ⟨id, document⟩ := entry
    subst named
    exact AList.mem_lookup_iff.mpr member
  obtain ⟨request, _, legal, between, data⟩ := stored_between reserved users ran other (Or.inr summary)
  refine ⟨partner, named, ?_⟩
  rw [data]
  exact Addressing.addressed_data (legal.distinct_of_between between) between

/-- In every state of every run, whatever Firestore rejects: a document of the log
or the summary of `owner` and `partner` names exactly these two, stems from a call
between them, and decodes for the signed-in owner to that partner and direction.
Every row of the owner's inbox is filed under another registered user's uid. -/
theorem mailboxes_addressed (reserved : ¬ registered recentMessages) (nonempty : ¬ registered "")
    (users : Registered registered events) (ran : run verdict initial events = some state)
    {owner : String} (now : Timestamp) :
    (∀ partner document, registered partner →
      (∃ id, ⟨id, document⟩ ∈ (state.log owner partner).entries) ∨ state.recent owner partner = some document →
      let message := Message.init (some owner) now document.data
      (message.fromId = owner ∧ message.toId = partner ∨ message.fromId = partner ∧ message.toId = owner) ∧
      message.chatPartnerId = partner ∧ partner ≠ owner ∧ partner ≠ "" ∧
      ∃ request, state.requests[document.origin]? = some request ∧ request.Between owner partner ∧
        (message.isFromCurrentUser = true ↔ request.currentUid = owner)) ∧
    ∀ entry ∈ (state.messages ⟨owner, recentMessages⟩).entries,
      ∃ partner, registered partner ∧ entry.1 = .named partner := by
  refine ⟨?_, fun entry member => summary_named reserved users ran member⟩
  intro partner document other stored
  obtain ⟨request, asked, legal, between, data⟩ := stored_between reserved users ran other stored
  have distinct := legal.distinct_of_between between
  rw [data]
  exact ⟨Addressing.decoded_names now between, Addressing.decoded_partner now distinct between, Ne.symm distinct,
    fun empty => nonempty (empty ▸ other), request, asked, between, Addressing.decoded_sender now⟩

theorem one_send_addressed :
    ∃ state document, run accepts initial oneSend = some state ∧ state.recent "bob" "ann" = some document ∧
      (Message.init (some "bob") ⟨5, 0⟩ document.data).chatPartnerId = "ann" := by
  have addressed := @mailboxes_addressed _ _ _ _ (by decide) (by decide) oneSend_registered
    (rfl : run accepts initial oneSend = some _) "bob" ⟨5, 0⟩
  exact ⟨_, _, rfl, rfl, (addressed.1 "ann" _ (Or.inl rfl) (Or.inr rfl)).2.1⟩

end Delivery

end FireChat
