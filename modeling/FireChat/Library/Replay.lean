import Mathlib.Data.List.AList
import Mathlib.Data.List.Induction

/-! Keyed insertion of a list of items, where the last item of a key wins. The
same list may be replayed any number of times, and over its own result. -/

namespace Replay

variable {κ ν : Type} [DecidableEq κ] (key : ν → κ)

/-- Insert every item under its key, in order. -/
def replay (items : List ν) (table : AList fun _ : κ => ν) : AList fun _ : κ => ν :=
  items.foldl (fun table item => table.insert (key item) item) table

/-- The last item of a key. -/
def latest (target : κ) (items : List ν) : Option ν :=
  items.reverse.find? fun item => key item = target

@[simp] theorem latest_nil (target : κ) : latest key target [] = none := rfl

theorem latest_append (target : κ) (first last : List ν) :
    latest key target (first ++ last) = (latest key target last).or (latest key target first) := by
  simp only [latest, List.reverse_append, List.find?_append]

theorem latest_concat (target : κ) (items : List ν) (item : ν) :
    latest key target (items ++ [item]) = if key item = target then some item else latest key target items := by
  rw [latest_append]
  by_cases same : key item = target <;> simp [latest, same]

theorem latest_eq_some {target : κ} {items : List ν} {item : ν} (found : latest key target items = some item) :
    item ∈ items ∧ key item = target := by
  refine ⟨?_, by simpa using List.find?_some found⟩
  simpa using List.mem_of_find?_eq_some found

theorem latest_eq_none {target : κ} {items : List ν} :
    latest key target items = none ↔ ∀ item ∈ items, key item ≠ target := by
  simp [latest]

theorem latest_congr {μ : Type} [DecidableEq μ] {other : ν → μ} {target : κ} {aim : μ} {items : List ν}
    (same : ∀ item ∈ items, key item = target ↔ other item = aim) : latest key target items = latest other aim items := by
  induction items using List.reverseRecOn with
  | nil => rfl
  | append_singleton items item ih =>
    have before := ih fun earlier member => same earlier (by simp [member])
    simp only [latest_concat, same item (by simp), before]

theorem latest_map {μ : Type} (value : μ → ν) (target : κ) (items : List μ) :
    latest key target (items.map value) = (latest (fun item => key (value item)) target items).map value := by
  simp only [latest, ← List.map_reverse, List.find?_map]
  rfl

theorem lookup_insert (target : κ) (item : ν) (table : AList fun _ : κ => ν) :
    (table.insert (key item) item).lookup target = if key item = target then some item else table.lookup target := by
  split
  next same => subst same; exact AList.lookup_insert table
  next different => exact AList.lookup_insert_ne (Ne.symm different)

theorem lookup_replay (target : κ) (items : List ν) (table : AList fun _ : κ => ν) :
    (replay key items table).lookup target = (latest key target items).or (table.lookup target) := by
  induction items using List.reverseRecOn with
  | nil => simp [replay]
  | append_singleton items item ih =>
    rw [latest_concat]
    simp only [replay, List.foldl_concat] at ih ⊢
    rw [lookup_insert, ih]
    split
    · rfl
    · rfl

/-- Replaying a list over the result of one of its prefixes is replaying it once. -/
theorem lookup_replay_grown {items more : List ν} {table : AList fun _ : κ => ν}
    (held : ∀ target, table.lookup target = latest key target items) (target : κ) :
    (replay key (items ++ more) table).lookup target = latest key target (items ++ more) := by
  rw [lookup_replay, held, latest_append]
  cases latest key target more with
  | some item => simp
  | none => simp

/-- Over the result of a list, replaying it with one more item is inserting that item. -/
theorem lookup_replay_concat {items : List ν} {item : ν} {table : AList fun _ : κ => ν}
    (held : ∀ target, table.lookup target = latest key target items) (target : κ) :
    (replay key (items ++ [item]) table).lookup target = (table.insert (key item) item).lookup target := by
  rw [lookup_replay_grown key held, latest_concat, lookup_insert, held]

/-- A table of the last items has each of them under its own key, and once. -/
theorem mem_values {items : List ν} {table : AList fun _ : κ => ν}
    (held : ∀ target, table.lookup target = latest key target items) {item : ν} :
    item ∈ table.entries.map Sigma.snd ↔ latest key (key item) items = some item := by
  rw [List.mem_map]
  refine ⟨?_, ?_⟩
  · intro ⟨⟨target, value⟩, member, same⟩
    cases same
    have found := held target ▸ AList.mem_lookup_iff.mpr member
    rw [(latest_eq_some key found).2]
    exact found
  · intro found
    exact ⟨⟨key item, item⟩, AList.mem_lookup_iff.mp (by rw [held, found]; rfl), rfl⟩

theorem nodup_values {items : List ν} {table : AList fun _ : κ => ν}
    (held : ∀ target, table.lookup target = latest key target items) :
    ((table.entries.map Sigma.snd).map key).Nodup := by
  have keys : (table.entries.map Sigma.snd).map key = table.entries.map Sigma.fst := by
    rw [List.map_map]
    apply List.map_congr_left
    intro ⟨target, value⟩ member
    have found := held target ▸ AList.mem_lookup_iff.mpr member
    exact (latest_eq_some key found).2
  rw [keys]
  exact table.nodupKeys

/-- A table has no order of its own: what holds along every enumeration holds between any two items. -/
theorem pairwise_enumerations {items : List ν} {related : ν → ν → Prop} (reflexive : ∀ item ∈ items, related item item) :
    (∀ enumeration : List ν, enumeration.Perm items → enumeration.Pairwise related) ↔
      ∀ first ∈ items, ∀ second ∈ items, related first second := by
  refine ⟨?_, ?_⟩
  · intro sorted
    have forwards := sorted items (List.Perm.refl items)
    have backwards := List.pairwise_reverse.mp (sorted items.reverse items.reverse_perm)
    exact fun first left second right => List.Pairwise.forall_of_forall_of_flip reflexive forwards backwards left right
  · intro all enumeration same
    apply List.pairwise_of_forall_mem_list
    intro first left second right
    exact all first (same.mem_iff.mp left) second (same.mem_iff.mp right)

end Replay
