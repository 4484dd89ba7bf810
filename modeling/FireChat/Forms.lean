import FireChat.App
import FireChat.UIKit

/-! The login and the registration form. `textDidChange` copies the edited field into
a view model that decides about the button. A tap on the button reads the fields. -/

namespace FireChat

structure CustomButton where
  isEnabled : Bool
  backgroundColor : UIColor
deriving DecidableEq, Repr

def CustomButton.init : CustomButton where
  isEnabled := false
  backgroundColor := .colorLiteral 0.9098039269 0.4784313738 0.6431372762 1

/-- What either form's `checkFormStatus` makes of its button. -/
def CustomButton.checkFormStatus (formIsValid : Bool) : CustomButton :=
  if formIsValid then ⟨true, .colorLiteral 0.8078431487 0.02745098062 0.3333333433 1⟩
  else ⟨false, .colorLiteral 0.8549019694 0.250980407 0.4784313738 1⟩

/-- `text?.isEmpty == false` -/
def isFilled (text : Option String) : Bool := text.map String.isEmpty == some false

structure LoginViewModel where
  email : Option String
  password : Option String
deriving DecidableEq, Repr

def LoginViewModel.formIsValid (viewModel : LoginViewModel) : Bool :=
  isFilled viewModel.email && isFilled viewModel.password

structure LoginForm where
  email : Option String
  password : Option String
  viewModel : LoginViewModel
  loginButton : CustomButton
deriving DecidableEq, Repr

namespace LoginForm

inductive TextField where
  | email
  | password
deriving DecidableEq, Repr

def init : LoginForm where
  email := some ""
  password := some ""
  viewModel := ⟨none, none⟩
  loginButton := .init

def checkFormStatus (form : LoginForm) : LoginForm :=
  { form with loginButton := .checkFormStatus form.viewModel.formIsValid }

def textDidChange (form : LoginForm) (sender : TextField) : LoginForm :=
  let viewModel := match sender with
    | .email => { form.viewModel with email := form.email }
    | .password => { form.viewModel with password := form.password }
  checkFormStatus { form with viewModel }

/-- The user changes what a field holds. -/
def edit (form : LoginForm) : TextField × Option String → LoginForm
  | (.email, text) => textDidChange { form with email := text } .email
  | (.password, text) => textDidChange { form with password := text } .password

def after (edits : List (TextField × Option String)) : LoginForm := edits.foldl edit init

/-- A tap gets past the handler's guards and requests a login with nothing left empty. -/
def Submits (form : LoginForm) (client : Nat) : Prop :=
  ∃ login, LoginController.handleLogin client form.email form.password = some login ∧ login.email ≠ "" ∧ login.password ≠ ""

end LoginForm

structure RegistrationViewModel where
  email : Option String
  password : Option String
  fullname : Option String
  username : Option String
deriving DecidableEq, Repr

def RegistrationViewModel.formIsValid (viewModel : RegistrationViewModel) : Bool :=
  isFilled viewModel.email && isFilled viewModel.password && isFilled viewModel.fullname && isFilled viewModel.username

structure RegistrationForm where
  controller : RegistrationController
  viewModel : RegistrationViewModel
  signupButton : CustomButton
deriving DecidableEq, Repr

namespace RegistrationForm

inductive TextField where
  | email
  | password
  | fullname
  | username
deriving DecidableEq, Repr

inductive Event where
  | textDidChange (sender : TextField) (text : Option String)
  | imagePickerController (originalImage : Option UIImage)

def init : RegistrationForm where
  controller := ⟨some "", some "", some "", some "", none⟩
  viewModel := ⟨none, none, none, none⟩
  signupButton := .init

def checkFormStatus (form : RegistrationForm) : RegistrationForm :=
  { form with signupButton := .checkFormStatus form.viewModel.formIsValid }

def textDidChange (form : RegistrationForm) (sender : TextField) : RegistrationForm :=
  let viewModel := match sender with
    | .email => { form.viewModel with email := form.controller.email }
    | .password => { form.viewModel with password := form.controller.password }
    | .fullname => { form.viewModel with fullname := form.controller.fullname }
    | .username => { form.viewModel with username := form.controller.username }
  checkFormStatus { form with viewModel }

/-- The user changes what a field holds. -/
def type (controller : RegistrationController) (text : Option String) : TextField → RegistrationController
  | .email => { controller with email := text }
  | .password => { controller with password := text }
  | .fullname => { controller with fullname := text }
  | .username => { controller with username := text }

def handle (form : RegistrationForm) : Event → RegistrationForm
  | .textDidChange sender text => textDidChange { form with controller := type form.controller text sender } sender
  | .imagePickerController originalImage => { form with controller := { form.controller with profileImage := originalImage } }

def after (events : List Event) : RegistrationForm := events.foldl handle init

/-- A tap gets past the handler's guards and `createUser` starts with nothing left empty. -/
def Submits (lowercased : String → String) (form : RegistrationForm) (client : Nat) : Prop :=
  ∃ credentials, form.controller.handleRegistration lowercased = some credentials ∧
    (AuthService.createUser client credentials).waiting ≠ none ∧
    credentials.email ≠ "" ∧ credentials.password ≠ "" ∧ credentials.fullname ≠ "" ∧ credentials.username ≠ ""

end RegistrationForm

end FireChat
