import CircuitCloak.Evaluation.Validation
import CircuitCloak.Proofs.ExactAccuracy
import CircuitCloak.Proofs.SeededSimulators

/-! Validation by a seeded simulator. Every execution draws from the same source and leaves the jobs as it found them,
whether it succeeds or not; so each trial is like the first, and any number of them comes to the same verdict. -/

namespace CircuitCloak

variable {circuit : Circuit} {shots seed : Nat} {α β : Type}

/-- What a validation is about: the histograms, and how far they agree. -/
structure Verdict where
  referenceCounts : Counts
  obfuscatedCounts : Counts
  accuracy : Float

def ValidationReport.verdict (report : ValidationReport) : Verdict :=
  ⟨report.referenceCounts, report.obfuscatedCounts, report.accuracy⟩

def Trials.verdict (trials : Trials) : Verdict :=
  ⟨trials.referenceCounts, trials.obfuscatedCounts, trials.referenceCounts.accuracy trials.obfuscatedCounts⟩

namespace Simulator

def histogram (simulator : Simulator) (circuit : Circuit) (shots : Nat) : Except ExecutionError Counts := do
  return (← simulator.outcome circuit shots).counts

/-- The verdict on one execution of each program. -/
def verdict (simulator : Simulator) (reference obfuscated : Circuit) (shots : Nat) : Except ExecutionError Verdict := do
  let first ← simulator.histogram reference shots
  let second ← simulator.histogram obfuscated shots
  return ⟨first, second, first.accuracy second⟩

/-- A program agrees with itself in every shot. -/
theorem verdict_self {verdict : Verdict} (done : (seeded seed).verdict circuit circuit shots = .ok verdict) :
    verdict.referenceCounts = verdict.obfuscatedCounts ∧ verdict.accuracy = 100 := by
  obtain ⟨counts, returned, again⟩ := bind_eq_ok_iff.mp done
  obtain ⟨_, same, made⟩ := bind_eq_ok_iff.mp again
  cases returned.symm.trans same
  cases made
  obtain ⟨result, executed, counted⟩ := bind_eq_ok_iff.mp returned
  cases counted
  obtain ⟨complete, positive, bounded⟩ := complete_of_outcome executed
  refine ⟨rfl, Counts.accuracy_self complete.distinct ?_ ?_⟩
  · rw [complete.total]
    omega
  · rw [complete.total]
    omega

end Simulator

namespace Validator

variable {World : Type} {property : Simulator → Prop} {γ δ : Type}

/-- The calls that validation makes: of a simulator, in a world in which time goes by. -/
abbrev Timed (World : Type) := ExceptT ExecutionError (StateT Simulator (StateM World))

/-- From any simulator with the property the call returns what is expected, as far as it is viewed, and the simulator
has the property afterwards. Neither depends on the time. -/
def Yields (property : Simulator → Prop) (call : Timed World α) (view : α → β) (expected : Except ExecutionError β) :
    Prop :=
  ∀ simulator world, property simulator →
    ((call.run.run simulator).run world).1.1.map view = expected ∧ property ((call.run.run simulator).run world).1.2

namespace Yields

variable {call : Timed World α} {view : α → β} {expected : Except ExecutionError β}

theorem pure (value : α) (view : α → β) : Yields property (Pure.pure value : Timed World α) view (.ok (view value)) :=
  fun _ _ held => ⟨rfl, held⟩

theorem bind {next : α → Timed World γ} {later : γ → δ} {after : β → Except ExecutionError δ}
    (first : Yields property call view expected)
    (resume : ∀ value, Yields property (next value) later (after (view value))) :
    Yields property (call >>= next) later (expected >>= after) := by
  intro simulator world held
  rw [ExceptT.run_bind, StateT.run_bind, StateT.run_bind]
  obtain ⟨viewed, kept⟩ := first simulator world held
  generalize (call.run.run simulator).run world = done at viewed kept ⊢
  obtain ⟨⟨answer, simulator⟩, world⟩ := done
  subst viewed
  cases answer with
  | ok value => exact resume value simulator world kept
  | error fault => exact ⟨rfl, kept⟩

/-- A call that has no part in what is expected. -/
theorem skip {next : α → Timed World γ} {later : γ → δ} {expected : Except ExecutionError δ}
    (first : Yields property call (fun _ => ()) (.ok ()))
    (resume : ∀ value, Yields property (next value) later expected) :
    Yields property (call >>= next) later expected :=
  show Yields property (call >>= next) later (Except.ok () >>= fun _ => expected) from first.bind resume

theorem map (first : Yields property call view expected) (f : α → γ) {later : γ → β}
    (same : ∀ value, later (f value) = view value) :
    Yields property (call >>= fun value => Pure.pure (f value)) later expected := by
  have made : Yields property (call >>= fun value => Pure.pure (f value)) later (expected >>= .ok) :=
    first.bind fun value => same value ▸ .pure (f value) later
  cases expected <;> exact made

/-- What is expected of both of two calls is expected of one after the other. -/
theorem again {next : α → Timed World γ} {later : γ → β} (first : Yields property call view expected)
    (resume : ∀ value, Yields property (next value) later expected) :
    Yields property (call >>= next) later expected := by
  have both : Yields property (call >>= next) later (expected >>= fun _ => expected) := first.bind resume
  cases expected <;> exact both

end Yields

variable {store : JobStore} {clock : StateM World Float} {backend : String}

theorem yields_clock : Yields property (liftM (Simulator.bench clock backend).clock : Timed World Float)
    (fun _ => ()) (.ok ()) :=
  fun _ _ held => ⟨rfl, held⟩

theorem yields_execute (circuit : Circuit) (shots : Nat) :
    Yields (Simulator.Holds seed store) ((Simulator.bench clock backend).execute circuit shots) id
      ((Simulator.seeded seed).outcome circuit shots) := by
  intro simulator world held
  refine ⟨?_, Simulator.keeps_execute_holds simulator held⟩
  rw [← held.seeded.outcome]
  exact congrFun Except.map_id _

theorem yields_timed (circuit : Circuit) (shots : Nat) :
    Yields (Simulator.Holds seed store) (timed (Simulator.bench clock backend) circuit shots) Prod.fst
      ((Simulator.seeded seed).histogram circuit shots) := by
  refine yields_clock.skip fun start => ?_
  refine (yields_execute circuit shots).bind fun result => ?_
  exact yields_clock.skip fun stop => .pure (result.counts, stop - start) Prod.fst

/-- A trial comes to the verdict, whatever there was before it. -/
theorem yields_trial (reference obfuscated : Circuit) (shots : Nat) (trials : Trials) :
    Yields (Simulator.Holds seed store) (trial (Simulator.bench clock backend) reference obfuscated shots trials)
      Trials.verdict ((Simulator.seeded seed).verdict reference obfuscated shots) := by
  refine (yields_timed reference shots).bind fun first => ?_
  refine (yields_timed obfuscated shots).bind fun second => ?_
  exact .pure ⟨first.1, second.1, trials.referenceTime + first.2, trials.obfuscatedTime + second.2⟩ Trials.verdict

/-- So do any number of trials, if there is one at all. -/
theorem yields_repeatTrials (reference obfuscated : Circuit) (shots count : Nat) (trials : Trials) :
    Yields (Simulator.Holds seed store)
      (repeatTrials (Simulator.bench clock backend) reference obfuscated shots (count + 1) trials)
      Trials.verdict ((Simulator.seeded seed).verdict reference obfuscated shots) := by
  induction count generalizing trials with
  | zero => exact (yields_trial reference obfuscated shots trials).map id fun _ => rfl
  | succ count ih => exact (yields_trial reference obfuscated shots trials).again fun next => ih next

theorem yields_compare (reference obfuscated : Circuit) (shots trials : Nat) :
    Yields (Simulator.Holds seed store)
      ((({ shots } : Validator).setTrials trials).compare (Simulator.bench clock backend) reference obfuscated)
      ValidationReport.verdict ((Simulator.seeded seed).verdict reference obfuscated shots) := by
  obtain ⟨count, some⟩ : ∃ count, max trials 1 = count + 1 := ⟨max trials 1 - 1, by omega⟩
  unfold compare setTrials
  dsimp only
  rw [some]
  exact (yields_repeatTrials reference obfuscated shots count _).map _ fun _ => rfl

/-- A comparison at some time: what it returns, and the simulator afterwards. -/
def compareAt (validator : Validator) (clock : StateM World Float) (backend : String) (simulator : Simulator)
    (reference obfuscated : Circuit) (world : World) : Except ExecutionError ValidationReport × Simulator :=
  (((validator.compare (Simulator.bench clock backend) reference obfuscated).run.run simulator).run world).1

/-- Whatever a seeded simulator was asked before, the number of trials and the time do not show in the verdict or in the
error of a comparison: it is the verdict on one execution of each program. A program agrees with itself exactly, and the
jobs are afterwards those that there were. -/
theorem compare_seeded (clock : StateM World Float) (backend : String) (seed : Nat)
    (earlier : List Service.Request) (shots : Nat) (reference obfuscated : Circuit) :
    let simulator := earlier.foldl Simulator.after (.seeded seed)
    let compare (trials : Nat) := (({ shots } : Validator).setTrials trials).compareAt clock backend simulator
    (∀ first second world later, (compare first reference obfuscated world).1.map ValidationReport.verdict =
      (compare second reference obfuscated later).1.map ValidationReport.verdict) ∧
    (∀ trials world, (compare trials reference obfuscated world).1.map ValidationReport.verdict =
      (Simulator.seeded seed).verdict reference obfuscated shots) ∧
    (∀ trials world report, (compare trials reference reference world).1 = .ok report →
      report.referenceCounts = report.obfuscatedCounts ∧ report.accuracy = 100) ∧
    ∀ trials world, (compare trials reference obfuscated world).2.store = simulator.store := by
  intro simulator compare
  have held : simulator.Holds seed simulator.store := ⟨Simulator.seeded_foldl seed earlier, rfl⟩
  have returns (one other : Circuit) (trials : Nat) (world : World) : (compare trials one other world).1.map
      ValidationReport.verdict = (Simulator.seeded seed).verdict one other shots :=
    (yields_compare one other shots trials simulator world held).1
  refine ⟨?_, returns reference obfuscated, ?_, ?_⟩
  · intro first second world later
    rw [returns, returns]
  · intro trials world report done
    have verdict := returns reference reference trials world
    rw [done] at verdict
    exact Simulator.verdict_self verdict.symm
  · intro trials world
    exact (yields_compare reference obfuscated shots trials simulator world held).2.store

end Validator

end CircuitCloak
