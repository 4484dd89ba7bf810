import FireChat.Service

/-! What `Message(dictionary:)` reads back from the dictionary that `uploadMessage`
builds. Three fields come back as written. The time does not, because the
decoder asks for a key that the encoder never writes. -/

namespace FireChat.Decoding

variable (request : Request) (reader : Option String) (now later : Timestamp)

@[simp] theorem data_text : request.data.string? "text" = some request.message := rfl

@[simp] theorem data_fromId : request.data.string? "fromId" = some request.currentUid := rfl

@[simp] theorem data_toId : request.data.string? "toId" = some request.userUid := rfl

@[simp] theorem data_timestamp : request.data.timestamp? "timestamp" = some request.timestamp := rfl

/-- The encoder's key is `timestamp`, the decoder's is `timeStamp`. -/
@[simp] theorem data_timeStamp : request.data.timestamp? "timeStamp" = none := rfl

theorem data_injective {first second : Request} (same : first.data = second.data) : first = second := by
  have text := congrArg (Fields.string? · "text") same
  have fromId := congrArg (Fields.string? · "fromId") same
  have toId := congrArg (Fields.string? · "toId") same
  have time := congrArg (Fields.timestamp? · "timestamp") same
  simp only [data_text, data_fromId, data_toId, data_timestamp, Option.some.injEq] at text fromId toId time
  cases first
  cases second
  simp_all

/-- Decoding yields the request's own fields, under the time of decoding. -/
theorem init_data : Message.init reader now request.data =
    { text := request.message
      toId := request.userUid
      fromId := request.currentUid
      timeStamp := now
      user := none
      isFromCurrentUser := some request.currentUid == reader } := by
  simp [Message.init]

theorem init_data_content :
    (Message.init reader now request.data).content = (request.message, request.currentUid, request.userUid) := by
  rw [init_data]
  rfl

theorem init_data_eq_iff :
    Message.init reader now request.data = Message.init reader later request.data ↔ now = later := by
  rw [init_data, init_data]
  simp

/-- Decoding gives back every field, independently of when it happens, exactly
when it happens at the very time that the message carries. -/
theorem decoding_undoes_encoding_iff (user : User) (zone : Int) :
    ((Message.init reader now request.data).content = (request.message, request.currentUid, request.userUid) ∧
      (Message.init reader now request.data).timeStamp = request.timestamp ∧
      Message.init reader now request.data = Message.init reader later request.data ∧
      ConversationViewModel.timestamp zone ⟨user, Message.init reader now request.data⟩ =
        DateFormatter.string zone request.timestamp) ↔
      now = request.timestamp ∧ later = request.timestamp := by
  have decoded : (Message.init reader now request.data).timeStamp = now := by rw [init_data]
  rw [init_data_eq_iff, ConversationViewModel.timestamp, decoded]
  refine ⟨?_, ?_⟩
  · rintro ⟨_, rfl, rfl, _⟩
    exact ⟨rfl, rfl⟩
  · rintro ⟨rfl, rfl⟩
    exact ⟨init_data_content request reader request.timestamp, rfl, rfl, rfl⟩

/-- A message sent at noon and decoded at one o'clock carries and shows one o'clock. -/
theorem decoding_loses_time :
    let request : Request := ⟨"hello", "ann", "bob", ⟨43200, 0⟩⟩
    let atOne := Message.init (some "bob") ⟨46800, 0⟩ request.data
    atOne.timeStamp ≠ request.timestamp ∧ atOne ≠ Message.init (some "bob") ⟨50400, 0⟩ request.data ∧
      ConversationViewModel.timestamp 0 ⟨⟨"ann", "", "ann", "Ann", "ann@mail"⟩, atOne⟩ = "01:00 PM" ∧
      DateFormatter.string 0 request.timestamp = "12:00 PM" := by
  decide

end FireChat.Decoding
