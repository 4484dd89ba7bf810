import FireChat.Proofs.Delivery
import Mathlib.Data.List.Nodup
import Mathlib.Data.List.Range

/-! Both participants' logs hold the same messages once nothing is outstanding,
and on the way there no message is doubled, misplaced or mirrored too early. -/

namespace FireChat.Delivery

variable {verdict : Nat → Write → Option NSError} {state : State}

theorem deliveries_sent {upload : Upload} (distinct : upload.request.currentUid ≠ upload.request.userUid) :
    upload.deliveries ⟨upload.request.currentUid, upload.request.userUid⟩ = if (upload.status .sent).landed then 1 else 0 := by
  simp [Upload.deliveries, Request.path, Ne.symm distinct]

theorem deliveries_received {upload : Upload} (distinct : upload.request.currentUid ≠ upload.request.userUid) :
    upload.deliveries ⟨upload.request.userUid, upload.request.currentUid⟩ =
      if (upload.status .received).landed then 1 else 0 := by
  simp [Upload.deliveries, Request.path, distinct]

theorem deliveries_other {upload : Upload} {path : Path}
    (sent : path ≠ ⟨upload.request.currentUid, upload.request.userUid⟩)
    (received : path ≠ ⟨upload.request.userUid, upload.request.currentUid⟩) : upload.deliveries path = 0 := by
  simp [Upload.deliveries, Request.path, Ne.symm sent, Ne.symm received]

theorem deliveries_settled {upload : Upload} {owner partner : String}
    (landed : ∀ write, (upload.status write).landed = true)
    (distinct : upload.request.currentUid ≠ upload.request.userUid) :
    upload.deliveries ⟨owner, partner⟩ = if upload.request.Between owner partner then 1 else 0 := by
  by_cases sent : upload.request.currentUid = owner ∧ upload.request.userUid = partner
  · obtain ⟨rfl, rfl⟩ := sent
    have between : upload.request.Between upload.request.currentUid upload.request.userUid := Or.inl ⟨rfl, rfl⟩
    rw [deliveries_sent distinct, if_pos (landed .sent), if_pos between]
  · by_cases received : upload.request.currentUid = partner ∧ upload.request.userUid = owner
    · obtain ⟨rfl, rfl⟩ := received
      have between : upload.request.Between upload.request.userUid upload.request.currentUid := Or.inr ⟨rfl, rfl⟩
      rw [deliveries_received distinct, if_pos (landed .received), if_pos between]
    · have neither : ¬ upload.request.Between owner partner := by
        rintro (first | second)
        · exact sent first
        · exact received second
      rw [if_neg neither]
      apply deliveries_other
      · intro same
        simp only [Path.mk.injEq] at same
        exact sent ⟨same.1.symm, same.2.symm⟩
      · intro same
        simp only [Path.mk.injEq] at same
        exact received ⟨same.2.symm, same.1.symm⟩

private theorem filter_range_map {α β : Type} (items : List α) (keep : α → Bool) (value : α → β)
    (keepAt : Nat → Bool) (valueAt : Nat → β)
    (agree : ∀ (index : Nat) item, items[index]? = some item → keepAt index = keep item ∧ valueAt index = value item) :
    ((List.range items.length).filter keepAt).map valueAt = (items.filter keep).map value := by
  induction items using List.reverseRecOn with
  | nil => rfl
  | append_singleton items item ih =>
    have before := ih fun index other found =>
      agree index other (by rw [List.getElem?_append_left (List.getElem?_eq_some_iff.mp found).1]; exact found)
    have last := agree items.length item (by simp)
    simp only [List.length_append, List.length_singleton, List.range_succ, List.filter_append, List.map_append, before]
    by_cases kept : keep item <;> simp [last, kept]

section settled

variable {registered : String → Prop} {partner : String}

private def concerns (state : State) (owner partner : String) (call : Nat) : Bool :=
  state.requests[call]?.elim false fun request => request.Between owner partner

private theorem log_copies (owner : String) (valid : Valid verdict state)
    (landed : ∀ upload ∈ state.uploads, ∀ write, (upload.status write).landed = true)
    (users : ∀ request ∈ state.requests, request.Registered registered) (log : partner ≠ recentMessages) (call : Nat) :
    (state.log owner partner).copies call = if concerns state owner partner call then 1 else 0 := by
  rw [State.log, valid.copies ⟨owner, partner⟩ log call, concerns, State.requests, List.getElem?_map]
  cases found : state.uploads[call]? with
  | none => rfl
  | some upload =>
    have member := List.mem_of_getElem? found
    have distinct := (users upload.request (List.mem_map_of_mem member)).distinct
    simp [deliveries_settled (landed upload member) distinct]

private theorem log_origins (owner : String) (valid : Valid verdict state)
    (landed : ∀ upload ∈ state.uploads, ∀ write, (upload.status write).landed = true)
    (users : ∀ request ∈ state.requests, request.Registered registered) (log : partner ≠ recentMessages) :
    ((state.log owner partner).entries.map fun entry => entry.2.origin).Perm
      ((List.range state.requests.length).filter (concerns state owner partner)) := by
  rw [List.perm_iff_count]
  intro call
  have counted := log_copies owner valid landed users log call
  rw [Collection.copies] at counted
  rw [List.count, List.countP_map]
  simp only [Function.comp_def, beq_eq_decide]
  rw [counted]
  split
  next kept =>
    have inside : call < state.requests.length := by
      by_contra outside
      rw [concerns, List.getElem?_eq_none (by omega)] at kept
      cases kept
    have member : call ∈ (List.range state.requests.length).filter (concerns state owner partner) :=
      List.mem_filter.mpr ⟨List.mem_range.mpr inside, kept⟩
    exact (List.count_eq_one_of_mem (List.nodup_range.filter _) member).symm
  next dropped =>
    have absent : call ∉ (List.range state.requests.length).filter (concerns state owner partner) := by
      intro member
      exact dropped (List.mem_filter.mp member).2
    exact (List.count_eq_zero_of_not_mem absent).symm

theorem log_contents (owner : String) (valid : Valid verdict state)
    (landed : ∀ upload ∈ state.uploads, ∀ write, (upload.status write).landed = true)
    (users : ∀ request ∈ state.requests, request.Registered registered) (log : partner ≠ recentMessages) :
    (state.log owner partner).contents.Perm
      ((state.requests.filter fun request => request.Between owner partner).map Request.data) := by
  let payload (call : Nat) : Fields := state.requests[call]?.elim ∅ Request.data
  have contents : (state.log owner partner).contents =
      ((state.log owner partner).entries.map fun entry => entry.2.origin).map payload := by
    rw [Collection.contents, List.map_map]
    apply List.map_congr_left
    intro entry member
    obtain ⟨upload, write, origin⟩ := valid.origin ⟨owner, partner⟩ entry member
    simp only [Function.comp_apply, payload, found_request origin.found]
    exact origin.data
  have selected : ((List.range state.requests.length).filter (concerns state owner partner)).map payload =
      (state.requests.filter fun request => request.Between owner partner).map Request.data := by
    apply filter_range_map
    intro call request found
    simp [concerns, payload, found]
  rw [contents, ← selected]
  exact (log_origins owner valid landed users log).map payload

end settled

section calls

variable {registered : String → Prop} {events : List Event} {call : Nat} {upload : Upload}

theorem call_registered (users : Registered registered events) (ran : run verdict initial events = some state)
    (found : state.uploads[call]? = some upload) : upload.request.Registered registered := by
  apply users
  rw [← run_requests ran]
  exact List.mem_of_getElem? (found_request found)

theorem log_copies_of_call (reserved : ¬ registered recentMessages) (users : Registered registered events)
    (ran : run verdict initial events = some state) (found : state.uploads[call]? = some upload) :
    (state.log upload.request.currentUid upload.request.userUid).copies call =
      (if (upload.status .sent).landed then 1 else 0) ∧
    (state.log upload.request.userUid upload.request.currentUid).copies call =
      if (upload.status .received).landed then 1 else 0 := by
  obtain ⟨sender, recipient, distinct⟩ := call_registered users ran found
  have log : ∀ {partner}, registered partner → partner ≠ recentMessages := fun user same => reserved (same ▸ user)
  refine ⟨?_, ?_⟩
  · rw [State.log, (run_valid ran).copies _ (log recipient) call, found]
    exact deliveries_sent distinct
  · rw [State.log, (run_valid ran).copies _ (log sender) call, found]
    exact deliveries_received distinct

end calls

theorem settled_all_landed {events : List Event} (ran : run accepts initial events = some state) (settled : state.Settled) :
    ∀ upload ∈ state.uploads, ∀ write, (upload.status write).landed = true := by
  intro upload member write
  obtain ⟨call, found⟩ := List.mem_iff_getElem?.mp member
  rw [((run_valid ran).calls call upload found).finished (settled upload member) write]
  rfl

/-- In every state of a run without rejections, a call has at most one copy in
either log, none elsewhere, and none mirrored before the first. Once no step is
left, every call has both copies, and the two logs of any pair hold the same
messages: those sent between the two, each as often as it was sent. -/
theorem delivered_exactly_once_mirrored {registered : String → Prop} (reserved : ¬ registered recentMessages)
    {events : List Event} {state : State} (users : Registered registered events)
    (ran : run accepts initial events = some state) :
    (∀ (call : Nat) (upload : Upload), state.uploads[call]? = some upload →
      let sender := upload.request.currentUid
      let recipient := upload.request.userUid
      (state.log sender recipient).copies call ≤ 1 ∧ (state.log recipient sender).copies call ≤ 1 ∧
      (∀ path : Path, path.name ≠ recentMessages → path ≠ ⟨sender, recipient⟩ → path ≠ ⟨recipient, sender⟩ →
        (state.messages path).copies call = 0) ∧
      ((state.log recipient sender).copies call = 1 → (state.log sender recipient).copies call = 1)) ∧
    (state.Settled →
      (∀ (call : Nat) (upload : Upload), state.uploads[call]? = some upload →
        (state.log upload.request.currentUid upload.request.userUid).copies call = 1 ∧
        (state.log upload.request.userUid upload.request.currentUid).copies call = 1) ∧
      ∀ owner partner, registered owner → registered partner →
        (state.log owner partner).contents.Perm (state.log partner owner).contents ∧
        (state.log owner partner).contents.Perm
          (((events.flatMap Event.requests).filter fun request => request.Between owner partner).map Request.data)) := by
  have valid := run_valid ran
  have asked := run_requests ran
  have log : ∀ {partner}, registered partner → partner ≠ recentMessages := fun user same => reserved (same ▸ user)
  refine ⟨?_, ?_⟩
  · intro call upload found
    obtain ⟨sent, received⟩ := log_copies_of_call reserved users ran found
    refine ⟨?_, ?_, ?_, ?_⟩
    · rw [sent]
      split <;> omega
    · rw [received]
      split <;> omega
    · intro path shared notSent notReceived
      rw [valid.copies path shared call, found]
      exact deliveries_other notSent notReceived
    · intro mirrored
      have landed : (upload.status .received).landed = true := by
        by_contra missing
        rw [received, if_neg missing] at mirrored
        omega
      rw [sent, if_pos ((valid.calls call upload found).received_landed rfl landed)]
  · intro settled
    have landed := settled_all_landed ran settled
    refine ⟨?_, ?_⟩
    · intro call upload found
      have member := List.mem_of_getElem? found
      obtain ⟨sent, received⟩ := log_copies_of_call reserved users ran found
      exact ⟨by rw [sent, if_pos (landed upload member .sent)], by rw [received, if_pos (landed upload member .received)]⟩
    · intro owner partner first second
      have requests : ∀ request ∈ state.requests, request.Registered registered := asked ▸ users
      have own := log_contents owner valid landed requests (log second)
      have mirror := log_contents partner valid landed requests (log first)
      have symmetric : (state.requests.filter fun request => request.Between partner owner) =
          state.requests.filter fun request => request.Between owner partner := by
        apply List.filter_congr
        intro request _
        exact decide_eq_decide.mpr Request.between_comm
      rw [symmetric] at mirror
      exact ⟨own.trans mirror.symm, asked ▸ own⟩

def oneSend : List Event :=
  [.uploadMessage (some "ann") "hello" ⟨"bob", "", "bob", "Bob", "bob@mail"⟩ ⟨1, 0⟩, .answer 0 .sent, .callback 0 .sent,
    .answer 0 .recentSent, .answer 0 .received, .callback 0 .received, .answer 0 .recentReceived]

theorem oneSend_registered : Registered (fun uid => uid = "ann" ∨ uid = "bob") oneSend := by
  intro request member
  obtain rfl : request = ⟨"hello", "ann", "bob", ⟨1, 0⟩⟩ := List.mem_singleton.mp member
  exact ⟨Or.inl rfl, Or.inr rfl, by decide⟩

theorem one_send_mirrored :
    ∃ state, run accepts initial oneSend = some state ∧ state.Settled ∧
      (state.log "ann" "bob").contents.Perm (state.log "bob" "ann").contents ∧
      (state.log "ann" "bob").contents = [Request.data ⟨"hello", "ann", "bob", ⟨1, 0⟩⟩] := by
  have mirrored := delivered_exactly_once_mirrored (by decide) oneSend_registered rfl
  refine ⟨_, rfl, by decide, ?_, rfl⟩
  exact ((mirrored.2 (by decide)).2 "ann" "bob" (Or.inl rfl) (Or.inr rfl)).1

end FireChat.Delivery
