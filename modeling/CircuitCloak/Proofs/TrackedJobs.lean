import CircuitCloak.Execution.Simulator
import Mathlib.Data.List.Nodup

/-! The store of jobs: which job an id stands for after each change, what a client is answered from the
store, and the forms that a job has until it is forgotten. -/

namespace CircuitCloak

namespace JobStore

variable {store : JobStore} {id other : JobId} {tracked : TrackedJob}

def Keyed (store : JobStore) : Prop := (store.jobs.map Prod.fst).Nodup

theorem find?_eq_none_iff : store.find? id = none ↔ ∀ entry ∈ store.jobs, entry.1 ≠ id := by
  refine List.lookup_eq_none_iff.trans (forall₂_congr fun entry _ => ?_)
  rw [bne_iff_ne, ne_comm]

theorem mem_of_find? (known : store.find? id = some tracked) : (id, tracked) ∈ store.jobs := by
  obtain ⟨before, after, same, _⟩ := List.lookup_eq_some_iff.mp known
  rw [same]
  exact List.mem_append_right before (List.mem_cons_self)

theorem find?_of_mem (keyed : store.Keyed) (member : (id, tracked) ∈ store.jobs) : store.find? id = some tracked := by
  obtain ⟨before, after, same⟩ := List.append_of_mem member
  refine List.lookup_eq_some_iff.mpr ⟨before, after, same, fun entry earlier => bne_iff_ne.mpr ?_⟩
  rintro rfl
  unfold Keyed at keyed
  rw [same, List.map_append, List.map_cons, List.nodup_middle] at keyed
  exact (List.nodup_cons.mp keyed).1 (List.mem_append_left _ (List.mem_map.mpr ⟨entry, earlier, rfl⟩))

theorem find?_erase_self : (store.erase id).find? id = none :=
  find?_eq_none_iff.mpr fun _ member => bne_iff_ne.mp (List.mem_filter.mp member).2

theorem find?_erase_of_ne (differ : other ≠ id) : (store.erase id).find? other = store.find? other := by
  obtain ⟨jobs⟩ := store
  change (jobs.filter (·.1 != id)).lookup other = jobs.lookup other
  induction jobs with
  | nil => rfl
  | cons entry rest ih =>
    obtain ⟨key, job⟩ := entry
    by_cases same : key = id
    · subst same
      rw [List.filter_cons_of_neg (by simp), List.lookup_cons, beq_false_of_ne differ, ih]
    · rw [List.filter_cons_of_pos (by simpa using same), List.lookup_cons, List.lookup_cons, ih]

theorem find?_insert_self : (store.insert id tracked).find? id = some tracked := List.lookup_cons_self

theorem find?_insert_of_ne (differ : other ≠ id) : (store.insert id tracked).find? other = store.find? other := by
  refine Eq.trans ?_ (find?_erase_of_ne differ)
  change ((id, tracked) :: (store.erase id).jobs).lookup other = _
  rw [List.lookup_cons, beq_false_of_ne differ]
  rfl

theorem find?_of_erase (known : (store.erase id).find? other = some tracked) : store.find? other = some tracked := by
  refine (find?_erase_of_ne fun same => ?_).symm.trans known
  rw [same, find?_erase_self] at known
  cases known

theorem find?_erase_eq_none (absent : store.find? other = none) : (store.erase id).find? other = none :=
  Option.eq_none_iff_forall_ne_some.mpr fun _ known => nomatch absent.symm.trans (find?_of_erase known)

/-- What is so of every job stays so where one is put in of which it is so. -/
theorem forall_find?_insert {property : JobId → TrackedJob → Prop} (new : property id tracked)
    (old : ∀ other job, store.find? other = some job → property other job) (other : JobId) (job : TrackedJob)
    (known : (store.insert id tracked).find? other = some job) : property other job := by
  by_cases same : other = id
  · subst same
    cases find?_insert_self.symm.trans known
    exact new
  · exact old other job ((find?_insert_of_ne same).symm.trans known)

theorem Keyed.erase (keyed : store.Keyed) (id : JobId) : (store.erase id).Keyed :=
  keyed.sublist (List.filter_sublist.map _)

theorem Keyed.insert (keyed : store.Keyed) (id : JobId) (tracked : TrackedJob) : (store.insert id tracked).Keyed := by
  refine List.nodup_cons.mpr ⟨fun member => ?_, keyed.erase id⟩
  obtain ⟨entry, inside, same⟩ := List.mem_map.mp member
  exact find?_eq_none_iff.mp find?_erase_self entry inside same

theorem erase_eq_self (absent : store.find? id = none) : store.erase id = store :=
  congrArg JobStore.mk (List.filter_eq_self.mpr fun entry member =>
    bne_iff_ne.mpr (find?_eq_none_iff.mp absent entry member))

theorem erase_insert (store : JobStore) (id : JobId) (tracked : TrackedJob) :
    (store.insert id tracked).erase id = store.erase id := by
  have dropped : (store.insert id tracked).erase id = (store.erase id).erase id :=
    congrArg JobStore.mk (List.filter_cons_of_neg (by simp))
  rw [dropped, erase_eq_self find?_erase_self]

theorem insert_insert (store : JobStore) (id : JobId) (first second : TrackedJob) :
    (store.insert id first).insert id second = store.insert id second := by
  unfold insert
  rw [show (JobStore.mk ((id, first) :: (store.erase id).jobs)).erase id = store.erase id from
    erase_insert store id first]

/-- What a client that asks for a status is told, and the jobs that are left. -/
inductive StatusOf (store : JobStore) (id : JobId) : Except ExecutionError JobStatus × JobStore → Prop where
  | absent (absent : store.find? id = none) : StatusOf store id (.error (.jobNotFound id), store)
  | reported {tracked : TrackedJob} {message : String} (known : store.find? id = some tracked)
      (failed : tracked.job.status = .failed message) : StatusOf store id (.ok (.failed message), store.erase id)
  | told {tracked : TrackedJob} (known : store.find? id = some tracked)
      (unfailed : ∀ message, tracked.job.status ≠ .failed message) :
      StatusOf store id (.ok tracked.job.status, store)

theorem statusOf_status (store : JobStore) (id : JobId) : store.StatusOf id (store.status id) := by
  unfold status
  cases known : store.find? id with
  | none => exact .absent known
  | some tracked =>
    dsimp only
    split
    next message failed => exact .reported known failed
    next unfailed => exact .told known fun message failed => unfailed message failed

theorem status_of_absent (absent : store.find? id = none) : store.status id = (.error (.jobNotFound id), store) := by
  unfold status
  rw [absent]

theorem status_of_completed (known : store.find? id = some tracked) (done : tracked.job.status = .completed) :
    store.status id = (.ok .completed, store) := by
  unfold status
  rw [known]
  dsimp only
  rw [done]

theorem status_of_failed {message : String} (known : store.find? id = some tracked)
    (failed : tracked.job.status = .failed message) : store.status id = (.ok (.failed message), store.erase id) := by
  unfold status
  rw [known]
  dsimp only
  rw [failed]

/-- What a client that asks for a result is given, and the jobs that are left. -/
inductive ResultOf (store : JobStore) (id : JobId) : Except ExecutionError ExecutionResult × JobStore → Prop where
  | absent (absent : store.find? id = none) : ResultOf store id (.error (.jobNotFound id), store)
  | handed {tracked : TrackedJob} {result : ExecutionResult} (known : store.find? id = some tracked)
      (has : tracked.result = some result) :
      ResultOf store id (.ok result, store.erase id)
  | missing {tracked : TrackedJob} (known : store.find? id = some tracked) (lacks : tracked.result = none) :
      ResultOf store id (.error (.noResult id), store)

theorem resultOf_result (store : JobStore) (id : JobId) : store.ResultOf id (store.result id) := by
  unfold result
  cases known : store.find? id with
  | none => exact .absent known
  | some tracked =>
    cases has : tracked.result with
    | some result => simpa only [has] using ResultOf.handed known has
    | none => simpa only [has] using ResultOf.missing known has

theorem result_of_absent (absent : store.find? id = none) : store.result id = (.error (.jobNotFound id), store) := by
  unfold JobStore.result
  rw [absent]

theorem result_of_some {result : ExecutionResult} (known : store.find? id = some tracked)
    (has : tracked.result = some result) : store.result id = (.ok result, store.erase id) := by
  unfold JobStore.result
  rw [known]
  dsimp only
  rw [has]

theorem close_of_find? (known : store.find? id = some tracked) (moment : Nat)
    (outcome : Except ExecutionError ExecutionResult) :
    store.close id moment outcome = store.insert id (TrackedJob.finish tracked moment outcome) := by
  unfold close
  rw [known]

/-- A job that is tracked when its execution ends is there with its outcome. -/
theorem close_track (store : JobStore) (id : JobId) (shots : Nat) (backend : String) (moment : Nat)
    (outcome : Except ExecutionError ExecutionResult) :
    (store.track id shots backend).close id moment outcome =
      store.insert id (TrackedJob.finish ⟨{ id, shots, backend }, none⟩ moment outcome) := by
  rw [track, close_of_find? find?_insert_self, insert_insert]

end JobStore

/-- The three forms of a job under its id: without a result until it has completed, and with one from then. -/
inductive TrackedJob.Formed (id : JobId) : TrackedJob → Prop where
  | queued {job : Job} (named : job.id = id) (waits : job.status = .queued) : Formed id ⟨job, none⟩
  | completed {job : Job} {result : ExecutionResult} (named : job.id = id) (done : job.status = .completed) :
      Formed id ⟨job, some result⟩
  | failed {job : Job} {message : String} (named : job.id = id) (failed : job.status = .failed message) :
      Formed id ⟨job, none⟩

/-- The end of its execution completes or fails a job that is queued. -/
theorem formed_finish {id : JobId} {tracked : TrackedJob} (formed : tracked.Formed id)
    (queued : tracked.job.status = .queued) (moment : Nat) (outcome : Except ExecutionError ExecutionResult) :
    (JobStore.TrackedJob.finish tracked moment outcome).Formed id ∧
      (JobStore.TrackedJob.finish tracked moment outcome).job.status ≠ .queued := by
  cases formed with
  | completed _ done => exact absurd (queued.symm.trans done) nofun
  | failed _ failed => exact absurd (queued.symm.trans failed) nofun
  | @queued job named waits =>
    have moves (status : JobStatus) : (job.transition status moment).id = id ∧
        (job.transition status moment).status = status := by
      unfold Job.transition
      rw [waits]
      exact ⟨named, rfl⟩
    cases outcome with
    | ok result =>
      obtain ⟨kept, done⟩ := moves .completed
      exact ⟨.completed kept done, fun still => absurd (done.symm.trans still) nofun⟩
    | error fault =>
      obtain ⟨kept, failed⟩ := moves (.failed fault.message)
      exact ⟨.failed kept failed, fun still => absurd (failed.symm.trans still) nofun⟩

theorem Simulator.run_store (simulator : Simulator) (circuit : Circuit) (shots : Nat) :
    (simulator.run circuit shots).2.store = simulator.store := by
  change (if simulator.isSeeded then simulator else { simulator with source := _ }).store = _
  split <;> rfl

end CircuitCloak
