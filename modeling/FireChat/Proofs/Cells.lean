import FireChat.Cells
import Mathlib.Data.List.Induction

/-! What a reused cell keeps of its earlier rows. Two of the three cells overwrite
everything that they show. A user's cell does so only for a user with an image. -/

namespace FireChat

variable (url : String → Option URL)

namespace UserCell

def lastImage (users : List User) : Option URL := (users.filterMap fun user => url user.profileImageUrl).getLast?

private theorem after_concat (users : List User) (user : User) : after url (users ++ [user]) = assign url (after url users) user := by
  exact List.foldl_concat ..

private theorem assign_eq (cell : UserCell) (user : User) :
    assign url cell user =
      { user := some user
        profileImageView := ⟨(url user.profileImageUrl).or cell.profileImageView.image, cell.profileImageView.isHidden⟩
        usernameLabel := user.username
        fullnameLabel := user.fullname } := by
  cases found : url user.profileImageUrl <;> simp [assign, configure, UIImageView.sd_setImage, found]

private theorem after_image (users : List User) : (after url users).profileImageView = ⟨lastImage url users, false⟩ := by
  induction users using List.reverseRecOn with
  | nil => rfl
  | append_singleton users user ih =>
    rw [after_concat, assign_eq, ih]
    cases found : url user.profileImageUrl <;> simp [lastImage, found]

/-- A user without an image leaves the one of an earlier row in the cell. -/
theorem after_eq_iff (first second : List User) (user : User) :
    after url (first ++ [user]) = after url (second ++ [user]) ↔
      url user.profileImageUrl ≠ none ∨ lastImage url first = lastImage url second := by
  rw [after_concat, after_concat, assign_eq, assign_eq, after_image, after_image]
  cases found : url user.profileImageUrl <;> simp

end UserCell

private theorem ConversationCell.assign_eq (zone : Int) (cell : ConversationCell) (conversation : Conversation) :
    assign url zone cell conversation =
      { conversation := some conversation
        profileImageView := ⟨ConversationViewModel.profileImageUrl url conversation, cell.profileImageView.isHidden⟩
        timestampLabel := some (ConversationViewModel.timestamp zone conversation)
        usernameLabel := some conversation.user.username
        messageTextLabel := some conversation.message.text } := by
  cases found : ConversationViewModel.profileImageUrl url conversation <;>
    simp [assign, configure, UIImageView.sd_setImage, found]

private theorem ConversationCell.after_isHidden (zone : Int) (conversations : List Conversation) :
    (after url zone conversations).profileImageView.isHidden = false := by
  induction conversations using List.reverseRecOn with
  | nil => rfl
  | append_singleton conversations conversation ih =>
    rw [after, List.foldl_concat, assign_eq]
    exact ih

theorem ConversationCell.after_eq (zone : Int) (first second : List Conversation) (conversation : Conversation) :
    after url zone (first ++ [conversation]) = after url zone (second ++ [conversation]) := by
  have last : ∀ conversations, after url zone (conversations ++ [conversation]) =
      assign url zone (after url zone conversations) conversation := by
    intro conversations
    exact List.foldl_concat ..
  rw [last, last, assign_eq, assign_eq, after_isHidden, after_isHidden]

private theorem MessageCell.assign_eq (cell : MessageCell) (message : Message) :
    assign url cell message =
      { message := some message
        bubbleLeftAnchor := !message.isFromCurrentUser
        bubbleRightAnchor := message.isFromCurrentUser
        profileImageView := ⟨MessageViewModel.profileImageUrl url message, message.isFromCurrentUser⟩
        textColor := MessageViewModel.messageTextColor message
        text := some message.text
        bubbleColor := MessageViewModel.messageBackgroundColor message } := by
  cases found : MessageViewModel.profileImageUrl url message <;>
    simp [assign, configure, UIImageView.sd_setImage, found, MessageViewModel.leftAnchorActive,
      MessageViewModel.rightAnchorActive, MessageViewModel.shouldHideProfileImage]

theorem MessageCell.after_concat (messages : List Message) (message : Message) :
    after url (messages ++ [message]) =
      { message := some message
        bubbleLeftAnchor := !message.isFromCurrentUser
        bubbleRightAnchor := message.isFromCurrentUser
        profileImageView := ⟨MessageViewModel.profileImageUrl url message, message.isFromCurrentUser⟩
        textColor := MessageViewModel.messageTextColor message
        text := some message.text
        bubbleColor := MessageViewModel.messageBackgroundColor message } := by
  rw [after, List.foldl_concat, assign_eq]

namespace Cells

/-- After the same last assignment, a conversation's or a message's cell shows the
same whatever it showed before, and one bubble anchor is active. A user's cell does
exactly when that user has an image or the two histories left the same one. -/
theorem reused_cells_iff (zone : Int) :
    (∀ (first second : List User) (user : User),
      UserCell.after url (first ++ [user]) = UserCell.after url (second ++ [user]) ↔
        url user.profileImageUrl ≠ none ∨ UserCell.lastImage url first = UserCell.lastImage url second) ∧
    (∀ (first second : List Conversation) (conversation : Conversation),
      ConversationCell.after url zone (first ++ [conversation]) = ConversationCell.after url zone (second ++ [conversation])) ∧
    ∀ (first second : List Message) (message : Message),
      MessageCell.after url (first ++ [message]) = MessageCell.after url (second ++ [message]) ∧
      (MessageCell.after url (first ++ [message])).bubbleLeftAnchor = !message.isFromCurrentUser ∧
      (MessageCell.after url (first ++ [message])).bubbleRightAnchor = message.isFromCurrentUser := by
  refine ⟨UserCell.after_eq_iff url, ConversationCell.after_eq url zone, ?_⟩
  intro first second message
  rw [MessageCell.after_concat, MessageCell.after_concat]
  exact ⟨rfl, rfl, rfl⟩

/-- A row of Ann's, who has an image, is reused for Bob, who has none. -/
theorem image_left_over :
    let url := fun text => if text = "" then none else some (URL.mk text)
    let ann := User.mk "ann" "https://images/1" "ann" "Ann" "ann@mail"
    let bob := User.mk "bob" "" "bob" "Bob" "bob@mail"
    (UserCell.after url [ann, bob]).profileImageView.image = some ⟨"https://images/1"⟩ ∧
      (UserCell.after url [bob]).profileImageView.image = none ∧
      ¬ UserCell.after url ([ann] ++ [bob]) = UserCell.after url ([] ++ [bob]) := by
  decide

end Cells

end FireChat
