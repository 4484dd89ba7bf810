import FireChat.Forms

/-! When a form's button is enabled, and when a tap on it works. The view model
follows the text fields. The photo that a registration needs it does not know. -/

namespace FireChat

@[simp] theorem CustomButton.checkFormStatus_isEnabled (formIsValid : Bool) :
    (checkFormStatus formIsValid).isEnabled = formIsValid := by
  cases formIsValid <;> rfl

theorem isFilled_iff {text : Option String} : isFilled text = true ↔ ∃ held, text = some held ∧ held ≠ "" := by
  cases text <;> simp [isFilled]

namespace LoginForm

/-- The view model agrees with the fields on what is filled, and the button with the view model. -/
private structure Mirrored (form : LoginForm) : Prop where
  email : isFilled form.viewModel.email = isFilled form.email
  password : isFilled form.viewModel.password = isFilled form.password
  button : form.loginButton.isEnabled = form.viewModel.formIsValid

private theorem Mirrored.edit {form : LoginForm} (mirrored : Mirrored form) (change : TextField × Option String) :
    Mirrored (form.edit change) := by
  obtain ⟨sender, text⟩ := change
  cases sender with
  | email => exact ⟨rfl, mirrored.password, CustomButton.checkFormStatus_isEnabled _⟩
  | password => exact ⟨mirrored.email, rfl, CustomButton.checkFormStatus_isEnabled _⟩

private theorem after_mirrored (edits : List (TextField × Option String)) : Mirrored (after edits) := by
  apply List.foldlRecOn edits edit
  · exact ⟨rfl, rfl, rfl⟩
  · intro form mirrored change _
    exact mirrored.edit change

private theorem submits_iff (form : LoginForm) (client : Nat) :
    form.Submits client ↔ isFilled form.email = true ∧ isFilled form.password = true := by
  obtain ⟨email, password, viewModel, button⟩ := form
  cases email <;> cases password <;> simp [Submits, LoginController.handleLogin, isFilled]

theorem enabled_iff_submits (edits : List (TextField × Option String)) (client : Nat) :
    (after edits).loginButton.isEnabled = true ↔ (after edits).Submits client := by
  have mirrored := after_mirrored edits
  rw [mirrored.button, LoginViewModel.formIsValid, mirrored.email, mirrored.password, submits_iff, Bool.and_eq_true]

end LoginForm

namespace RegistrationForm

def Filled (form : RegistrationForm) : Prop :=
  isFilled form.controller.email = true ∧ isFilled form.controller.password = true ∧
    isFilled form.controller.fullname = true ∧ isFilled form.controller.username = true

private structure Mirrored (form : RegistrationForm) : Prop where
  email : isFilled form.viewModel.email = isFilled form.controller.email
  password : isFilled form.viewModel.password = isFilled form.controller.password
  fullname : isFilled form.viewModel.fullname = isFilled form.controller.fullname
  username : isFilled form.viewModel.username = isFilled form.controller.username
  button : form.signupButton.isEnabled = form.viewModel.formIsValid

private theorem Mirrored.handle {form : RegistrationForm} (mirrored : Mirrored form) (event : Event) :
    Mirrored (form.handle event) := by
  obtain ⟨email, password, fullname, username, button⟩ := mirrored
  cases event with
  | imagePickerController originalImage => exact ⟨email, password, fullname, username, button⟩
  | textDidChange sender text =>
    have enabled := CustomButton.checkFormStatus_isEnabled
    cases sender with
    | email => exact ⟨rfl, password, fullname, username, enabled _⟩
    | password => exact ⟨email, rfl, fullname, username, enabled _⟩
    | fullname => exact ⟨email, password, rfl, username, enabled _⟩
    | username => exact ⟨email, password, fullname, rfl, enabled _⟩

private theorem after_mirrored (events : List Event) : Mirrored (after events) := by
  apply List.foldlRecOn events handle
  · exact ⟨rfl, rfl, rfl, rfl, rfl⟩
  · intro form mirrored event _
    exact mirrored.handle event

private theorem enabled_iff (events : List Event) : (after events).signupButton.isEnabled = true ↔ (after events).Filled := by
  have mirrored := after_mirrored events
  rw [mirrored.button, RegistrationViewModel.formIsValid, mirrored.email, mirrored.password, mirrored.fullname,
    mirrored.username, Filled, Bool.and_eq_true, Bool.and_eq_true, Bool.and_eq_true, and_assoc, and_assoc]

/-- The handler needs more than the view model sees: a photo, and one that can be encoded. -/
private theorem submits_iff {lowercased : String → String} (faithful : ∀ text, lowercased text = "" ↔ text = "")
    (form : RegistrationForm) (client : Nat) :
    form.Submits lowercased client ↔ form.Filled ∧ form.controller.profileImage.bind UIImage.jpegData ≠ none := by
  simp only [Submits, Filled, isFilled_iff, RegistrationController.handleRegistration_eq_some]
  refine ⟨?_, ?_⟩
  · intro ⟨credentials, ⟨email, password, fullname, username, image⟩, started, hasEmail, hasPassword, hasFullname, hasUsername⟩
    obtain ⟨typed, held, lowered⟩ := Option.map_eq_some_iff.mp username
    refine ⟨⟨⟨_, email, hasEmail⟩, ⟨_, password, hasPassword⟩, ⟨_, fullname, hasFullname⟩, typed, held, ?_⟩, ?_⟩
    · intro empty
      exact hasUsername (lowered.symm.trans ((faithful typed).mpr empty))
    · simpa [image, AuthService.createUser] using started
  · intro ⟨⟨⟨email, hasEmail⟩, ⟨password, hasPassword⟩, ⟨fullname, hasFullname⟩, username, held, nonempty⟩, encoded⟩
    cases image : form.controller.profileImage with
    | none => simp [image] at encoded
    | some profileImage =>
      refine ⟨⟨email, password, fullname, lowercased username, profileImage⟩, ⟨hasEmail.1, hasPassword.1, hasFullname.1, ?_, rfl⟩,
        ?_, hasEmail.2, hasPassword.2, hasFullname.2, ?_⟩
      · rw [held, Option.map_some]
      · simpa [image, AuthService.createUser] using encoded
      · intro empty
        exact nonempty ((faithful username).mp empty)

end RegistrationForm

namespace Forms

/-- The login button is enabled exactly when logging in works. The sign-up button is
enabled as soon as every text is there, so it agrees with the handler exactly when
some text is missing or an image that can be encoded has been picked. -/
theorem button_enabled_iff {lowercased : String → String} (faithful : ∀ text, lowercased text = "" ↔ text = "") (client : Nat) :
    (∀ edits, (LoginForm.after edits).loginButton.isEnabled = true ↔ (LoginForm.after edits).Submits client) ∧
    ∀ events, ((RegistrationForm.after events).signupButton.isEnabled = true ↔
        (RegistrationForm.after events).Submits lowercased client) ↔
      ¬ (RegistrationForm.after events).Filled ∨
        (RegistrationForm.after events).controller.profileImage.bind UIImage.jpegData ≠ none := by
  refine ⟨fun edits => LoginForm.enabled_iff_submits edits client, ?_⟩
  intro events
  rw [RegistrationForm.enabled_iff, RegistrationForm.submits_iff faithful]
  by_cases filled : (RegistrationForm.after events).Filled <;> simp [filled]

open RegistrationForm in
def typedAnn : List Event :=
  [.textDidChange .email (some "ann@mail"), .textDidChange .fullname (some "Ann"), .textDidChange .username (some "ann"),
    .textDidChange .password (some "secret")]

private theorem toLower_eq_empty (text : String) : text.toLower = "" ↔ text = "" := String.map_eq_empty

theorem photo_makes_ready :
    (RegistrationForm.after (typedAnn ++ [.imagePickerController (some ⟨some [255]⟩)])).Submits String.toLower 0 := by
  have agree := (button_enabled_iff toLower_eq_empty 0).2 (typedAnn ++ [.imagePickerController (some ⟨some [255]⟩)])
  exact (agree.mpr (Or.inr (Option.some_ne_none _))).mp rfl

theorem enabled_without_photo :
    (RegistrationForm.after typedAnn).signupButton.isEnabled = true ∧
      (RegistrationForm.after typedAnn).controller.handleRegistration String.toLower = none ∧
      ¬ (RegistrationForm.after typedAnn).Submits String.toLower 0 := by
  refine ⟨rfl, rfl, ?_⟩
  intro ⟨credentials, passed, _⟩
  cases passed

end Forms

end FireChat
