import FireChat.Model
import FireChat.UIKit

/-! The three cells. A table hands a cell from row to row, and each assignment runs
`configure` over whatever the cell shows. `url` stands for `URL(string:)`. -/

namespace FireChat

structure UserCell where
  user : Option User
  profileImageView : UIImageView
  usernameLabel : String
  fullnameLabel : String
deriving DecidableEq, Repr

namespace UserCell

def init : UserCell where
  user := none
  profileImageView := ⟨none, false⟩
  usernameLabel := "Spiderman"
  fullnameLabel := "Peter Parker"

def configure (url : String → Option URL) (cell : UserCell) : UserCell :=
  match cell.user with
  | none => cell
  | some user =>
    let cell := { cell with fullnameLabel := user.fullname, usernameLabel := user.username }
    match url user.profileImageUrl with
    | none => cell
    | some url => { cell with profileImageView := cell.profileImageView.sd_setImage (some url) }

/-- `cell.user = user` -/
def assign (url : String → Option URL) (cell : UserCell) (user : User) : UserCell :=
  configure url { cell with user := some user }

def after (url : String → Option URL) (users : List User) : UserCell := users.foldl (assign url) init

end UserCell

def ConversationViewModel.profileImageUrl (url : String → Option URL) (conversation : Conversation) : Option URL :=
  url conversation.user.profileImageUrl

structure ConversationCell where
  conversation : Option Conversation
  profileImageView : UIImageView
  timestampLabel : Option String
  usernameLabel : Option String
  messageTextLabel : Option String
deriving DecidableEq, Repr

namespace ConversationCell

def init : ConversationCell where
  conversation := none
  profileImageView := ⟨none, false⟩
  timestampLabel := some "2h"
  usernameLabel := none
  messageTextLabel := none

def configure (url : String → Option URL) (zone : Int) (cell : ConversationCell) : ConversationCell :=
  match cell.conversation with
  | none => cell
  | some conversation =>
    { cell with
      usernameLabel := some conversation.user.username
      messageTextLabel := some conversation.message.text
      timestampLabel := some (ConversationViewModel.timestamp zone conversation)
      profileImageView := cell.profileImageView.sd_setImage (ConversationViewModel.profileImageUrl url conversation) }

/-- `cell.conversation = conversation` -/
def assign (url : String → Option URL) (zone : Int) (cell : ConversationCell) (conversation : Conversation) : ConversationCell :=
  configure url zone { cell with conversation := some conversation }

def after (url : String → Option URL) (zone : Int) (conversations : List Conversation) : ConversationCell :=
  conversations.foldl (assign url zone) init

end ConversationCell

namespace MessageViewModel

def messageBackgroundColor (message : Message) : UIColor :=
  if message.isFromCurrentUser then .colorLiteral 0.8039215803 0.8039215803 0.8039215803 1 else .systemPurple

def messageTextColor (message : Message) : UIColor :=
  if message.isFromCurrentUser then .black else .white

def rightAnchorActive (message : Message) : Bool := message.isFromCurrentUser

def leftAnchorActive (message : Message) : Bool := !message.isFromCurrentUser

def shouldHideProfileImage (message : Message) : Bool := message.isFromCurrentUser

def profileImageUrl (url : String → Option URL) (message : Message) : Option URL :=
  match message.user with
  | none => none
  | some user => url user.profileImageUrl

end MessageViewModel

structure MessageCell where
  message : Option Message
  bubbleLeftAnchor : Bool
  bubbleRightAnchor : Bool
  profileImageView : UIImageView
  textColor : UIColor
  text : Option String
  bubbleColor : UIColor
deriving DecidableEq

namespace MessageCell

def init : MessageCell where
  message := none
  bubbleLeftAnchor := false
  bubbleRightAnchor := false
  profileImageView := ⟨none, false⟩
  textColor := .white
  text := none
  bubbleColor := .systemPurple

def configure (url : String → Option URL) (cell : MessageCell) : MessageCell :=
  match cell.message with
  | none => cell
  | some message =>
    { cell with
      bubbleColor := MessageViewModel.messageBackgroundColor message
      textColor := MessageViewModel.messageTextColor message
      text := some message.text
      bubbleLeftAnchor := MessageViewModel.leftAnchorActive message
      bubbleRightAnchor := MessageViewModel.rightAnchorActive message
      profileImageView :=
        { cell.profileImageView with isHidden := MessageViewModel.shouldHideProfileImage message }.sd_setImage
          (MessageViewModel.profileImageUrl url message) }

/-- `cell.message = message` -/
def assign (url : String → Option URL) (cell : MessageCell) (message : Message) : MessageCell :=
  configure url { cell with message := some message }

def after (url : String → Option URL) (messages : List Message) : MessageCell := messages.foldl (assign url) init

end MessageCell

end FireChat
