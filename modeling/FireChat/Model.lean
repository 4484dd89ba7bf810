import FireChat.Firestore

/-! `Model/User.swift`, `Model/Message.swift` and the one view model that formats a
decoded message. A decoder never fails: a missing or ill-typed field falls back. -/

namespace FireChat

structure User where
  uid : String
  profileImageUrl : String
  username : String
  fullname : String
  email : String
deriving DecidableEq, Repr

def User.init (dictionary : Fields) : User where
  uid := (dictionary.string? "uid").getD ""
  profileImageUrl := (dictionary.string? "profileImageUrl").getD ""
  username := (dictionary.string? "username").getD ""
  fullname := (dictionary.string? "fullname").getD ""
  email := (dictionary.string? "email").getD ""

structure Message where
  text : String
  toId : String
  fromId : String
  timeStamp : Timestamp
  user : Option User
  isFromCurrentUser : Bool
deriving DecidableEq, Repr

def Message.chatPartnerId (message : Message) : String :=
  if message.isFromCurrentUser then message.toId else message.fromId

/-- `currentUid` is `Auth.auth().currentUser?.uid` and `now` is `Date()`, both read
while decoding. The key of the time is spelled as the source spells it. -/
def Message.init (currentUid : Option String) (now : Timestamp) (dictionary : Fields) : Message :=
  let fromId := (dictionary.string? "fromId").getD ""
  { text := (dictionary.string? "text").getD ""
    toId := (dictionary.string? "toId").getD ""
    fromId
    timeStamp := (dictionary.timestamp? "timeStamp").getD now
    user := none
    isFromCurrentUser := some fromId == currentUid }

/-- The fields of a message that a reader of a conversation sees. -/
def Message.content (message : Message) : String × String × String :=
  (message.text, message.fromId, message.toId)

/-- The same fields of the document that a message is decoded from. -/
def Fields.content (dictionary : Fields) : String × String × String :=
  ((dictionary.string? "text").getD "", (dictionary.string? "fromId").getD "", (dictionary.string? "toId").getD "")

structure Conversation where
  user : User
  message : Message
deriving DecidableEq, Repr

namespace DateFormatter

private def twoDigits (number : Int) : String :=
  if number < 10 then "0" ++ toString number else toString number

/-- `dateFormat = "hh:mm a"` in a time zone that is `zone` seconds east of GMT. -/
def string (zone : Int) (time : Timestamp) : String :=
  let minutes := (time.seconds + zone) / 60
  let hour := minutes / 60 % 24
  let clock := if hour % 12 = 0 then 12 else hour % 12
  twoDigits clock ++ ":" ++ twoDigits (minutes % 60) ++ " " ++ if hour < 12 then "AM" else "PM"

end DateFormatter

def ConversationViewModel.timestamp (zone : Int) (conversation : Conversation) : String :=
  DateFormatter.string zone conversation.message.timeStamp

end FireChat
