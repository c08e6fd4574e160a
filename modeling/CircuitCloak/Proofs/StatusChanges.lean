import CircuitCloak.Execution.Job
import Mathlib.Data.List.Infix

/-! The statuses that a job goes through. The first terminal status that is requested ends a job for good and stamps
it; until then a job takes on whatever is requested, so it is put back in the queue where that is requested of a job
that runs. -/

namespace CircuitCloak

/-- The order of statuses: queued, running, ended. -/
def JobStatus.rank : JobStatus → Nat
  | queued => 0
  | running => 1
  | completed | failed _ => 2

theorem JobStatus.rank_le_of_isTerminal {status : JobStatus} (terminal : status.isTerminal = true) (other : JobStatus) :
    other.rank ≤ status.rank := by
  have highest : status.rank = 2 := by
    cases status with
    | queued | running => cases terminal
    | completed | failed => rfl
  rw [highest]
  cases other with
  | queued => exact Nat.zero_le 2
  | running => exact Nat.le_succ 1
  | completed | failed => exact Nat.le_refl 2

namespace Job

variable {job : Job} {requests : List (JobStatus × Nat)}

/-- The job after requests for other statuses, each made at some moment. -/
def transitions (job : Job) (requests : List (JobStatus × Nat)) : Job :=
  requests.foldl (fun job request => job.transition request.1 request.2) job

/-- The job before any request and after each of them. -/
def history (job : Job) (requests : List (JobStatus × Nat)) : List Job := requests.inits.map job.transitions

/-- The statuses that are requested before the first terminal one. -/
def beforeEnd (requests : List (JobStatus × Nat)) : List JobStatus := (requests.map Prod.fst).takeWhile (!·.isTerminal)

theorem history_cons (job : Job) (request : JobStatus × Nat) (rest : List (JobStatus × Nat)) :
    job.history (request :: rest) = job :: (job.transition request.1 request.2).history rest := by
  rw [history, List.inits_cons, List.map_cons, List.map_map]
  rfl

theorem transition_of_terminal (terminal : job.status.isTerminal = true) (status : JobStatus) (moment : Nat) :
    job.transition status moment = job :=
  if_pos terminal

theorem transition_to_terminal (unended : job.status.isTerminal = false) {status : JobStatus}
    (terminal : status.isTerminal = true) (moment : Nat) :
    job.transition status moment = { job with status, finishedAt := some moment } := by
  rw [transition, unended, if_neg Bool.false_ne_true, if_pos terminal]

theorem transition_to_open (unended : job.status.isTerminal = false) {status : JobStatus}
    (goesOn : status.isTerminal = false) (moment : Nat) : job.transition status moment = { job with status } := by
  rw [transition, unended, goesOn, if_neg Bool.false_ne_true, if_neg Bool.false_ne_true]

theorem transitions_of_terminal (terminal : job.status.isTerminal = true) (requests : List (JobStatus × Nat)) :
    job.transitions requests = job := by
  induction requests with
  | nil => rfl
  | cons request rest ih => rw [transitions, List.foldl_cons, transition_of_terminal terminal, ← transitions, ih]

theorem eq_of_mem_history (terminal : job.status.isTerminal = true) {later : Job}
    (member : later ∈ job.history requests) : later = job := by
  obtain ⟨before, _, same⟩ := List.mem_map.mp member
  exact same.symm.trans (transitions_of_terminal terminal before)

/-- A job that has ended is the same ever after. -/
theorem history_permanent (job : Job) (requests : List (JobStatus × Nat)) :
    (job.history requests).Pairwise fun earlier later => earlier.status.isTerminal = true → later = earlier := by
  induction requests generalizing job with
  | nil => exact List.pairwise_singleton ..
  | cons request rest ih =>
    rw [history_cons]
    refine List.pairwise_cons.mpr ⟨fun later member terminal => ?_, ih _⟩
    rw [transition_of_terminal terminal] at member
    exact eq_of_mem_history terminal member

/-- The first terminal status that is requested ends a job, and stamps it. -/
theorem finishedAt_transitions (unended : job.status.isTerminal = false) (unstamped : job.finishedAt = none) :
    (job.transitions requests).finishedAt.map ((job.transitions requests).status, ·) =
        requests.find? (fun request => request.1.isTerminal) ∧
      (job.transitions requests).finishedAt.isSome = (job.transitions requests).status.isTerminal := by
  induction requests generalizing job with
  | nil =>
    change job.finishedAt.map _ = none ∧ job.finishedAt.isSome = job.status.isTerminal
    rw [unstamped, unended]
    exact ⟨rfl, rfl⟩
  | cons request rest ih =>
    obtain ⟨status, moment⟩ := request
    rw [transitions, List.foldl_cons, ← transitions, List.find?_cons]
    dsimp only
    cases terminal : status.isTerminal with
    | true =>
      rw [transition_to_terminal unended terminal, transitions_of_terminal terminal]
      exact ⟨rfl, terminal.symm⟩
    | false =>
      rw [transition_to_open unended terminal]
      exact ih terminal unstamped

theorem beforeEnd_of_terminal {status : JobStatus} (terminal : status.isTerminal = true) (moment : Nat)
    (rest : List (JobStatus × Nat)) : beforeEnd ((status, moment) :: rest) = [] := by
  rw [beforeEnd, List.map_cons, List.takeWhile_cons_of_neg (by rw [terminal]; decide)]

theorem beforeEnd_of_open {status : JobStatus} (goesOn : status.isTerminal = false) (moment : Nat)
    (rest : List (JobStatus × Nat)) : beforeEnd ((status, moment) :: rest) = status :: beforeEnd rest := by
  rw [beforeEnd, List.map_cons, List.takeWhile_cons_of_pos (by rw [goesOn]; rfl), ← beforeEnd]

/-- No status that a job goes through is below a given one if none of those is that it takes on before it ends. -/
theorem forall_history_iff (unended : job.status.isTerminal = false) (least : JobStatus) :
    (∀ later ∈ job.history requests, least.rank ≤ later.status.rank) ↔
      ∀ status ∈ job.status :: beforeEnd requests, least.rank ≤ status.rank := by
  induction requests generalizing job with
  | nil =>
    change (∀ later ∈ [job], _) ↔ ∀ status ∈ [job.status], _
    rw [List.forall_mem_singleton, List.forall_mem_singleton]
  | cons request rest ih =>
    obtain ⟨status, moment⟩ := request
    rw [history_cons, List.forall_mem_cons, List.forall_mem_cons]
    refine and_congr_right fun _ => ?_
    cases terminal : status.isTerminal with
    | true =>
      rw [beforeEnd_of_terminal terminal, transition_to_terminal unended terminal]
      refine iff_of_true (fun later member => ?_) (List.forall_mem_nil _)
      rw [eq_of_mem_history terminal member]
      exact JobStatus.rank_le_of_isTerminal terminal least
    | false =>
      rw [beforeEnd_of_open terminal, transition_to_open unended terminal]
      exact ih terminal

/-- A job never goes back exactly if the statuses that it takes on before it ends never do. -/
theorem pairwise_history_iff (unended : job.status.isTerminal = false) :
    ((job.history requests).Pairwise fun earlier later => earlier.status.rank ≤ later.status.rank) ↔
      (job.status :: beforeEnd requests).Pairwise fun earlier later => earlier.rank ≤ later.rank := by
  induction requests generalizing job with
  | nil => exact iff_of_true (List.pairwise_singleton ..) (List.pairwise_singleton ..)
  | cons request rest ih =>
    obtain ⟨status, moment⟩ := request
    rw [history_cons, List.pairwise_cons]
    cases terminal : status.isTerminal with
    | true =>
      rw [beforeEnd_of_terminal terminal, transition_to_terminal unended terminal]
      refine iff_of_true ⟨fun later member => ?_, List.pairwise_of_forall_mem_list fun one first other second => ?_⟩
        (List.pairwise_singleton ..)
      · rw [eq_of_mem_history terminal member]
        exact JobStatus.rank_le_of_isTerminal terminal job.status
      · rw [eq_of_mem_history terminal first, eq_of_mem_history terminal second]
    | false =>
      rw [beforeEnd_of_open terminal, transition_to_open unended terminal, List.pairwise_cons]
      exact and_congr (forall_history_iff terminal job.status) (ih terminal)

/-- A new job ends with the first terminal status that is requested, is stamped then, and stays as it is from then on,
whatever is requested later. Before, it never goes back exactly if no request does. -/
theorem history_ordered_iff (id : JobId) (shots : Nat) (backend : String) (requests : List (JobStatus × Nat)) :
    let job : Job := { id, shots, backend }
    ((job.history requests).Pairwise fun earlier later => earlier.status.isTerminal = true → later = earlier) ∧
    (∀ before, before <+: requests →
      (job.transitions before).finishedAt.map ((job.transitions before).status, ·) =
          before.find? (fun request => request.1.isTerminal) ∧
        (job.transitions before).finishedAt.isSome = (job.transitions before).status.isTerminal) ∧
    (((job.history requests).Pairwise fun earlier later => earlier.status.rank ≤ later.status.rank) ↔
      (beforeEnd requests).Pairwise fun earlier later => earlier.rank ≤ later.rank) := by
  intro job
  have unended : job.status.isTerminal = false := rfl
  refine ⟨history_permanent job requests, fun before _ => finishedAt_transitions unended rfl, ?_⟩
  rw [pairwise_history_iff unended, List.pairwise_cons]
  exact and_iff_right fun status _ => Nat.zero_le _

/-- A job that runs can be queued again. -/
theorem history_requeued : ¬(Job.history ⟨.issued 0, 1, "simulator", .queued, none⟩
    [(.running, 1), (.queued, 2)]).Pairwise fun earlier later => earlier.status.rank ≤ later.status.rank := by
  decide

end Job
end CircuitCloak
