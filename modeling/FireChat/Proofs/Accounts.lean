import FireChat.Proofs.Registration

/-! What settled registrations leave behind. `createUser` handles the failures that
come before the account; the silent exits and the profile write it does not. -/

namespace FireChat.Registration

variable {lowercased : String → String} {state : State}

@[simp] theorem data_uid (credentials : RegistrationCredentials) (profileImageUrl uid : String) :
    (credentials.data profileImageUrl uid).string? "uid" = some uid := rfl

theorem Sound.profile_uid (sound : Sound state) {uid : String} {data : Fields} (held : state.users uid = some data) :
    data.string? "uid" = some uid := by
  obtain ⟨number, stored⟩ := (sound.users uid data).mp held
  obtain ⟨run, _, stored⟩ := Option.bind_eq_some_iff.mp stored
  obtain ⟨_, _, _, rfl⟩ := Run.stored_eq_some.mp stored
  exact data_uid ..

private theorem Sound.owner (sound : Sound state) {uid : String} {data : Fields} (held : state.users uid = some data) :
    uid ∈ state.accounts := by
  obtain ⟨number, stored⟩ := (sound.users uid data).mp held
  obtain ⟨run, found, stored⟩ := Option.bind_eq_some_iff.mp stored
  exact (sound.accounts uid).mpr ⟨number, by rw [State.uidOf, found, Option.bind_some, Run.uid_of_stored stored]⟩

/-- A run's account has a profile exactly when the run has reported success. -/
private theorem Sound.profile_iff (sound : Sound state) {run : Run} (member : run ∈ state.runs) {account : Account}
    (created : run.account = some account) : state.users account.uid ≠ none ↔ none ∈ run.completions := by
  obtain ⟨number, found⟩ := List.mem_iff_getElem?.mp member
  have owner : state.uidOf number = some account.uid := by simp [State.uidOf, found, Run.uid, created]
  refine ⟨?_, ?_⟩
  · intro present
    obtain ⟨data, held⟩ := Option.ne_none_iff_exists'.mp present
    obtain ⟨other, stored⟩ := (sound.users account.uid data).mp held
    obtain ⟨writer, there, stored⟩ := Option.bind_eq_some_iff.mp stored
    have same : state.uidOf other = some account.uid := by
      rw [State.uidOf, there, Option.bind_some, Run.uid_of_stored stored]
    obtain rfl := sound.distinct number other account.uid owner same
    obtain rfl := Option.some.inj (found.symm.trans there)
    exact (Run.stored_eq_some.mp stored).1
  · intro reported
    apply Option.ne_none_iff_exists'.mpr
    refine ⟨run.credentials.data account.profileImageUrl account.uid, (sound.users ..).mpr ⟨number, ?_⟩⟩
    simp [State.storedBy, found, Run.stored, reported, created]

private theorem Sound.run_account (sound : Sound state) {run : Run} (member : run ∈ state.runs) {account : Account}
    (created : run.account = some account) : account.uid ∈ state.accounts := by
  obtain ⟨number, found⟩ := List.mem_iff_getElem?.mp member
  exact (sound.accounts account.uid).mpr ⟨number, by simp [State.uidOf, found, Run.uid, created]⟩

private theorem Sound.account_run (sound : Sound state) {uid : String} (member : uid ∈ state.accounts) :
    ∃ run ∈ state.runs, ∃ account, run.account = some account ∧ account.uid = uid := by
  obtain ⟨number, owner⟩ := (sound.accounts uid).mp member
  obtain ⟨run, found, owner⟩ := Option.bind_eq_some_iff.mp owner
  obtain ⟨account, created, same⟩ := Option.map_eq_some_iff.mp owner
  exact ⟨run, List.mem_of_getElem? found, account, created, same⟩

/-- A run that has ended without stalling has reported once, and truthfully. -/
private theorem Sound.report (sound : Sound state) {run : Run} (member : run ∈ state.runs) (ended : run.waiting = none)
    (fine : ¬ run.Stalled) : ∃ report, run.completions = [report] ∧
      (report = none ↔ ∃ account, run.account = some account ∧ account.uid ∈ state.accounts ∧ state.users account.uid ≠ none) := by
  have shape := sound.runs run member
  simp only [Run.Sound, ended] at shape
  obtain ⟨once, needs, _⟩ := shape
  have spoken : run.completions ≠ [] := fun silent => fine ⟨ended, Or.inl silent⟩
  obtain ⟨report, reported⟩ : ∃ report, run.completions = [report] := by
    apply List.length_eq_one_iff.mp
    have some_report := List.length_pos_iff.mpr spoken
    omega
  refine ⟨report, reported, ?_⟩
  refine ⟨?_, ?_⟩
  · intro success
    subst success
    have said : none ∈ run.completions := by simp [reported]
    obtain ⟨account, created⟩ := Option.ne_none_iff_exists'.mp (fun absent => needs absent said)
    exact ⟨account, created, sound.run_account member created, (sound.profile_iff member created).mpr said⟩
  · intro stands
    obtain ⟨account, created, _, present⟩ := stands
    have said := (sound.profile_iff member created).mp present
    simpa [reported, eq_comm] using said

private theorem Sound.consistent_iff (sound : Sound state) (settled : state.Settled) :
    state.Consistent ↔ ∀ run ∈ state.runs, ¬ run.Stalled := by
  refine ⟨?_, ?_⟩
  · intro consistent run member stalled
    obtain ⟨report, reported, _⟩ := consistent.reports run member
    rcases stalled.2 with silent | ⟨created, unsaid⟩
    · simp [reported] at silent
    · obtain ⟨account, created⟩ := Option.ne_none_iff_exists'.mp created
      obtain ⟨data, held, _⟩ := consistent.profiles account.uid (sound.run_account member created)
      exact unsaid ((sound.profile_iff member created).mp (by simp [held]))
  · intro fine
    refine ⟨?_, ?_, ?_⟩
    · intro uid member
      obtain ⟨run, present, account, created, rfl⟩ := sound.account_run member
      have said : none ∈ run.completions := by
        by_contra unsaid
        exact fine run present ⟨settled run present, Or.inr ⟨by simp [created], unsaid⟩⟩
      obtain ⟨data, held⟩ := Option.ne_none_iff_exists'.mp ((sound.profile_iff present created).mpr said)
      exact ⟨data, held, sound.profile_uid held⟩
    · intro uid data held
      exact sound.owner held
    · intro run member
      exact sound.report member (settled run member) (fine run member)

/-- With no run in flight, accounts and profiles correspond and every run has
truthfully reported once, exactly when every image could be encoded, every upload
got its URL and the profile of every created account was accepted. -/
theorem registration_consistent_iff {events : List Event} (ran : run lowercased initial events = some state)
    (settled : state.Settled) : state.Consistent ↔ ∀ event ∈ events, event.Handled lowercased := by
  rw [(run_sound ran).consistent_iff settled, run_stalled ran]

def annForm (password : String) : RegistrationController :=
  ⟨some "ann@mail", some password, some "Ann", some "Ann", some ⟨some [255]⟩⟩

def registerAnn (password : String) (written : Option NSError) : List Event :=
  [.handleRegistration 0 (annForm password), .answer 0 (.putData none), .answer 0 (.downloadURL (some "https://images/1")),
    .answer 0 (.createUser (.ok "ann")), .answer 0 (.setData written)]

theorem registered_ann_consistent :
    ∃ state, run String.toLower initial (registerAnn "secret" none) = some state ∧ state.Consistent := by
  refine ⟨_, rfl, (registration_consistent_iff
    (rfl : run String.toLower initial (registerAnn "secret" none) = some _) (by decide)).mpr ?_⟩
  intro event member
  simp only [registerAnn, List.mem_cons, List.not_mem_nil, or_false] at member
  rcases member with rfl | rfl | rfl | rfl | rfl
  · intro credentials complete
    cases complete
    exact Option.some_ne_none _
  · trivial
  · exact Option.some_ne_none _
  · trivial
  · rfl

/-- The profile write is rejected, so Ann's account stays without a document. -/
theorem rejected_profile_leaves_account :
    ∃ state, run String.toLower initial (registerAnn "secret" (some ⟨"permission denied"⟩)) = some state ∧ state.Settled ∧
      state.accounts = ["ann"] ∧ state.users "ann" = none ∧ ¬ state.Consistent := by
  refine ⟨_, rfl, by decide, rfl, rfl, ?_⟩
  intro consistent
  obtain ⟨data, held, _⟩ := consistent.profiles "ann" (List.mem_singleton_self _)
  cases held

end FireChat.Registration
