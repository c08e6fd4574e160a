import CircuitCloak.Proofs.UndisturbedCalls

/-! Jobs under any order of the sections of any calls: a job is queued exactly as long as some call executes
it, and it is forgotten by the answer that settles it. -/

namespace CircuitCloak

namespace Service

variable {store after : JobStore} {issued : List JobId} {answers : List Answer} {choice : Choice} {id : JobId}

/-- What is so of the jobs, of those that are being executed, of the ids so far and of the answers so far. -/
structure Sound (store : JobStore) (executing issued : List JobId) (answers : List Answer) : Prop where
  keyed : store.Keyed
  formed : ∀ id tracked, store.find? id = some tracked → tracked.Formed id
  known : ∀ id tracked, store.find? id = some tracked → id ∈ issued
  once : executing.Nodup
  queued : ∀ id, id ∈ executing ↔ ∃ tracked, store.find? id = some tracked ∧ tracked.job.status = .queued
  returned : ∀ id, .submitted id ∈ answers → id ∈ issued ∧ id ∉ executing
  settled : ∀ answer ∈ answers, ∀ id, answer.settles? = some id → store.find? id = none ∧ id ∈ issued
  kept : ∀ id ∈ issued, store.find? id = none → ∃ answer ∈ answers, answer.settles? = some id
  ordered : answers.Pairwise fun earlier later =>
    ∀ id, earlier.settles? = some id → later.about? = some id → later.NotFound

namespace Sound

variable {executing : List JobId}

theorem initial : Sound .empty [] [] [] :=
  ⟨List.nodup_nil, nofun, nofun, List.nodup_nil, fun _ => ⟨nofun, fun ⟨_, absent, _⟩ => nomatch absent⟩, nofun, nofun,
    nofun, .nil⟩

theorem perm {other : List JobId} (sound : Sound store executing issued answers) (same : executing.Perm other) :
    Sound store other issued answers :=
  { sound with
    once := same.nodup sound.once
    queued := fun id => same.mem_iff.symm.trans (sound.queued id)
    returned := fun id member => ⟨(sound.returned id member).1, fun inside =>
      (sound.returned id member).2 (same.mem_iff.mpr inside)⟩ }

/-- An answer keeps the order if it does not find what was settled before. -/
theorem ordered_append (sound : Sound store executing issued answers) (answer : Answer)
    (unfound : ∀ id, answer.about? = some id → store.find? id = none → answer.NotFound) :
    (answers ++ [answer]).Pairwise fun earlier later =>
      ∀ id, earlier.settles? = some id → later.about? = some id → later.NotFound := by
  refine List.pairwise_append.mpr ⟨sound.ordered, List.pairwise_singleton _ _, fun earlier member later same id => ?_⟩
  obtain rfl := List.mem_singleton.mp same
  intro settles about
  exact unfound id about (sound.settled earlier member id settles).1

theorem looked (sound : Sound store executing issued answers) {answer : Answer} (harmless : answer.Harmless store) :
    Sound store executing issued (answers ++ [answer]) := by
  refine { sound with returned := fun id member => ?_, settled := ?_, kept := ?_, ordered := ?_ }
  · rcases List.mem_append.mp member with before | last
    · exact sound.returned id before
    · exact absurd (List.mem_singleton.mp last).symm (harmless.other id)
  · refine List.forall_mem_append.mpr ⟨sound.settled, List.forall_mem_singleton.mpr fun id settles => ?_⟩
    exact absurd (harmless.unsettling.symm.trans settles) nofun
  · intro id member absent
    obtain ⟨given, before, settles⟩ := sound.kept id member absent
    exact ⟨given, List.mem_append_left _ before, settles⟩
  · exact sound.ordered_append answer harmless.unfound

theorem tracked (sound : Sound store executing issued answers) (fresh : id ∉ issued) (shots : Nat)
    (backend : String) : Sound (store.track id shots backend) (id :: executing) (id :: issued) answers := by
  have differs : ∀ other ∈ issued, other ≠ id := fun other member same => fresh (same ▸ member)
  have unstarted : id ∉ executing := by
    intro member
    obtain ⟨tracked, known, _⟩ := (sound.queued id).mp member
    exact fresh (sound.known id tracked known)
  refine ⟨sound.keyed.insert _ _, JobStore.forall_find?_insert (.queued rfl rfl) sound.formed, ?known,
    List.nodup_cons.mpr ⟨unstarted, sound.once⟩, ?queued, ?returned, ?settled, ?kept, sound.ordered⟩
  case known =>
    exact JobStore.forall_find?_insert (List.mem_cons_self) fun other job known =>
      List.mem_cons_of_mem _ (sound.known other job known)
  case queued =>
    intro other
    by_cases same : other = id
    · subst same
      exact iff_of_true (List.mem_cons_self) ⟨_, JobStore.find?_insert_self, rfl⟩
    · rw [List.mem_cons, or_iff_right same, sound.queued, JobStore.track, JobStore.find?_insert_of_ne same]
  case returned =>
    intro other member
    obtain ⟨inside, out⟩ := sound.returned other member
    exact ⟨List.mem_cons_of_mem _ inside, List.not_mem_cons_of_ne_of_not_mem (differs other inside) out⟩
  case settled =>
    intro answer member other settles
    obtain ⟨absent, inside⟩ := sound.settled answer member other settles
    exact ⟨(JobStore.find?_insert_of_ne (differs other inside)).trans absent, List.mem_cons_of_mem _ inside⟩
  case kept =>
    intro other member absent
    rcases List.mem_cons.mp member with rfl | inside
    · exact absurd (JobStore.find?_insert_self.symm.trans absent) (Option.some_ne_none _)
    · exact sound.kept other inside ((JobStore.find?_insert_of_ne (differs other inside)).symm.trans absent)

theorem closed (sound : Sound store (id :: executing) issued answers) (moment : Nat)
    (outcome : Except ExecutionError ExecutionResult) :
    Sound (store.close id moment outcome) executing issued (answers ++ [.submitted id]) := by
  obtain ⟨tracked, known, waits⟩ := (sound.queued id).mp (List.mem_cons_self)
  obtain ⟨formed, ended⟩ := formed_finish (sound.formed id tracked known) waits moment outcome
  obtain ⟨idle, once⟩ := List.nodup_cons.mp sound.once
  rw [JobStore.close_of_find? known]
  refine ⟨sound.keyed.insert _ _, JobStore.forall_find?_insert formed sound.formed,
    JobStore.forall_find?_insert (sound.known id tracked known) sound.known, once, ?queued, ?returned, ?settled, ?kept,
    sound.ordered_append _ nofun⟩
  case queued =>
    intro other
    by_cases same : other = id
    · subst same
      refine iff_of_false idle ?_
      rintro ⟨job, found, still⟩
      cases JobStore.find?_insert_self.symm.trans found
      exact ended still
    · rw [JobStore.find?_insert_of_ne same, ← sound.queued, List.mem_cons, or_iff_right same]
  case returned =>
    intro other member
    rcases List.mem_append.mp member with before | last
    · obtain ⟨inside, out⟩ := sound.returned other before
      exact ⟨inside, fun still => out (List.mem_cons_of_mem _ still)⟩
    · cases List.mem_singleton.mp last
      exact ⟨sound.known id tracked known, idle⟩
  case settled =>
    refine List.forall_mem_append.mpr ⟨fun answer member other settles => ?_, List.forall_mem_singleton.mpr nofun⟩
    obtain ⟨absent, inside⟩ := sound.settled answer member other settles
    refine ⟨(JobStore.find?_insert_of_ne ?_).trans absent, inside⟩
    rintro rfl
    exact nomatch known.symm.trans absent
  case kept =>
    intro other member absent
    have differs : other ≠ id := by
      rintro rfl
      exact nomatch JobStore.find?_insert_self.symm.trans absent
    obtain ⟨answer, before, settles⟩ := sound.kept other member ((JobStore.find?_insert_of_ne differs).symm.trans absent)
    exact ⟨answer, List.mem_append_left _ before, settles⟩

/-- A job that is executed is not settled. -/
theorem idle_of_ended (sound : Sound store executing issued answers) {tracked : TrackedJob}
    (known : store.find? id = some tracked) (ended : tracked.result ≠ none ∨ tracked.job.status ≠ .queued) :
    id ∉ executing := by
  intro member
  obtain ⟨job, found, waits⟩ := (sound.queued id).mp member
  cases known.symm.trans found
  rcases ended with has | moved
  · have formed := sound.formed id tracked known
    cases formed with
    | queued | failed => exact has rfl
    | completed _ done => exact nomatch waits.symm.trans done
  · exact moved waits

theorem settle (sound : Sound store executing issued answers) {tracked : TrackedJob} {answer : Answer}
    (known : store.find? id = some tracked) (ended : tracked.result ≠ none ∨ tracked.job.status ≠ .queued)
    (settles : answer.settles? = some id) : Sound (store.erase id) executing issued (answers ++ [answer]) := by
  refine ⟨sound.keyed.erase id, fun other job found => sound.formed other job (JobStore.find?_of_erase found),
    fun other job found => sound.known other job (JobStore.find?_of_erase found), sound.once, ?queued, ?returned,
    ?settled, ?kept, ?ordered⟩
  case queued =>
    intro other
    by_cases same : other = id
    · subst same
      refine iff_of_false (sound.idle_of_ended known ended) ?_
      rintro ⟨job, found, _⟩
      exact nomatch JobStore.find?_erase_self.symm.trans found
    · rw [JobStore.find?_erase_of_ne same]
      exact sound.queued other
  case returned =>
    intro other member
    rcases List.mem_append.mp member with before | last
    · exact sound.returned other before
    · cases List.mem_singleton.mp last
      cases settles
  case settled =>
    refine List.forall_mem_append.mpr ⟨fun given member other settles => ?_,
      List.forall_mem_singleton.mpr fun other same => ?_⟩
    · obtain ⟨absent, inside⟩ := sound.settled given member other settles
      exact ⟨JobStore.find?_erase_eq_none absent, inside⟩
    · cases settles.symm.trans same
      exact ⟨JobStore.find?_erase_self, sound.known id tracked known⟩
  case kept =>
    intro other member absent
    by_cases same : other = id
    · subst same
      exact ⟨answer, List.mem_append_right _ (List.mem_singleton_self answer), settles⟩
    · obtain ⟨given, before, settled⟩ := sound.kept other member ((JobStore.find?_erase_of_ne same).symm.trans absent)
      exact ⟨given, List.mem_append_left _ before, settled⟩
  case ordered =>
    refine sound.ordered_append answer fun other about absent => ?_
    cases (Answer.about_of_settles settles).symm.trans about
    exact nomatch known.symm.trans absent

theorem step {ended begun : Option JobId} {new : Option JobId} {answer : Option Answer}
    (effect : Effect store choice ended after new answer begun) (fresh : choice.id ∉ issued)
    (sound : Sound store (ended.toList ++ executing) issued answers) :
    Sound after (begun.toList ++ executing) (new.toList ++ issued) (answers ++ answer.toList) := by
  cases effect with
  | looked harmless =>
    cases answer with
    | none =>
      rw [show answers ++ (none : Option Answer).toList = answers from List.append_nil answers]
      exact sound
    | some answer => exact sound.looked (harmless answer rfl)
  | tracked =>
    rw [Option.toList_none, List.append_nil]
    exact sound.tracked fresh _ _
  | closed => exact sound.closed _ _
  | settled known ended settles => exact sound.settle known ended settles

end Sound

variable {service next : Service}

def executing (service : Service) : List JobId := service.calls.flatMap fun stage => stage.executes?.toList

theorem executing_toList_append (next : Option Stage) (others : List Stage) :
    ((next.toList ++ others).flatMap fun stage => stage.executes?.toList) =
      (next.bind Stage.executes?).toList ++ others.flatMap fun stage => stage.executes?.toList := by
  rw [List.flatMap_append]
  cases next with
  | none => rfl
  | some stage => rw [Option.toList_some, List.flatMap_singleton]; rfl

theorem sound_step (sound : Sound service.simulator.store service.executing service.issued service.answers)
    (step : Step service next) : Sound next.simulator.store next.executing next.issued next.answers := by
  cases step with
  | begin request =>
    have same : (request.stage :: service.calls).flatMap (fun stage => stage.executes?.toList) = service.executing := by
      rw [List.flatMap_cons]
      cases request <;> rfl
    unfold executing
    rw [same]
    exact sound
  | @goOn stage others choice held permitted =>
    have before := sound.perm (held.flatMap_right fun stage : Stage => stage.executes?.toList)
    rw [List.flatMap_cons] at before
    have after := before.step (effect_run choice service.simulator stage) permitted.1
    rw [← executing_toList_append] at after
    exact after

theorem sound_of_reachable (reached : service.Reachable) :
    Sound service.simulator.store service.executing service.issued service.answers := by
  induction reached with
  | @opened simulator untouched =>
    rw [untouched]
    exact .initial
  | step _ step ih => exact sound_step ih step

theorem absent_of_reachable (reached : service.Reachable) (fresh : id ∉ service.issued) :
    service.simulator.store.find? id = none :=
  Option.eq_none_iff_forall_ne_some.mpr fun tracked known => fresh ((sound_of_reachable reached).known id tracked known)

/-- Whatever is under way, an execution can be asked for and come to its end. -/
theorem exists_executed (reached : service.Reachable) (circuit : Circuit) (shots : Nat) :
    ∃ after, Reachable after ∧ after.calls = service.calls ∧ Traceless circuit shots service after :=
  reachable_of_alone (alone_execute (fun _ => absent_of_reachable reached) circuit shots)
    (reached.step (.begin service (.execute circuit shots)))

/-- Where no two members that come one after the other both have a property, at most one has it. -/
theorem countP_le_one {α : Type} {property : α → Bool} {items : List α}
    (apart : items.Pairwise fun earlier later => property earlier = true → property later = false) :
    items.countP property ≤ 1 := by
  induction apart with
  | nil => exact Nat.zero_le 1
  | @cons head rest first _ ih =>
    by_cases holds : property head = true
    · have none : rest.countP property = 0 :=
        List.countP_eq_zero.mpr fun later member => Bool.eq_false_iff.mp (first later member holds)
      rw [List.countP_cons_of_pos holds, none]
    · rwa [List.countP_cons_of_neg holds]

/-- What clients can rely on, whatever they have asked for and in whatever order it was done. -/
structure Orderly (service : Service) : Prop where
  /-- Each id stands for one job, -/
  keyed : service.simulator.store.Keyed
  /-- which is queued without a result, completed with one, or failed without one. -/
  formed : ∀ id tracked, (id, tracked) ∈ service.simulator.store.jobs → tracked.Formed id
  /-- It is queued as long as it is executed, by one call, -/
  queued : ∀ id, id ∈ service.executing ↔
    ∃ tracked, (id, tracked) ∈ service.simulator.store.jobs ∧ tracked.job.status = .queued
  once : service.executing.Nodup
  /-- and not any more when its submission has returned. -/
  returned : ∀ id, .submitted id ∈ service.answers → id ∉ service.executing
  /-- No job is lost: -/
  kept : ∀ id ∈ service.issued, (∃ tracked, (id, tracked) ∈ service.simulator.store.jobs) ∨
    ∃ answer ∈ service.answers, answer.settles? = some id
  /-- its result is handed out once at most, -/
  delivered : ∀ id, service.answers.countP (·.delivers? == some id) ≤ 1
  /-- and after its result was handed out or its failure reported, it is not found any more. -/
  forgotten : ∀ before answer after, service.answers = before ++ answer :: after → ∀ id, answer.settles? = some id →
    (∀ later ∈ after, later.about? = some id → later.NotFound) ∧
    ∀ (stage : Stage) choice, stage.asks? = some id → ∃ reply : Answer, stage.run choice service.simulator =
      { simulator := service.simulator, answer := some reply } ∧ reply.about? = some id ∧ reply.NotFound
  /-- An execution that no other call comes between returns, and leaves the jobs as it found them. -/
  undisturbed : ∀ circuit shots, Alone (Traceless circuit shots service) service (.validate circuit shots)

theorem lifecycle (reached : service.Reachable) : service.Orderly := by
  have sound := sound_of_reachable reached
  refine ⟨sound.keyed, ?formed, ?queued, sound.once, fun id member => (sound.returned id member).2, ?kept, ?delivered,
    ?forgotten, alone_execute fun _ => absent_of_reachable reached⟩
  case formed => exact fun id tracked member => sound.formed id tracked (JobStore.find?_of_mem sound.keyed member)
  case queued =>
    intro id
    refine (sound.queued id).trans (exists_congr fun tracked => and_congr_left fun _ => ?_)
    exact ⟨JobStore.mem_of_find?, JobStore.find?_of_mem sound.keyed⟩
  case kept =>
    intro id member
    cases known : service.simulator.store.find? id with
    | none => exact .inr (sound.kept id member known)
    | some tracked => exact .inl ⟨tracked, JobStore.mem_of_find? known⟩
  case delivered =>
    refine fun id => countP_le_one (sound.ordered.imp fun {earlier later} respects first => ?_)
    by_contra second
    have first := Answer.settles_of_delivers (eq_of_beq first)
    have second := eq_of_beq (Bool.of_not_eq_false second)
    have unfound := respects id first (Answer.about_of_settles (Answer.settles_of_delivers second))
    exact nomatch unfound.delivers.symm.trans second
  case forgotten =>
    intro before answer after split id settles
    have settled := sound.settled answer (split ▸ List.mem_append_right before List.mem_cons_self) id settles
    have ordered := sound.ordered
    rw [split] at ordered
    have later := (List.pairwise_cons.mp (List.pairwise_append.mp ordered).2.1).1
    exact ⟨fun other member about => later other member id settles about,
      fun stage choice asks => run_of_absent asks settled.1 choice⟩

theorem lifecycle_collected : ∃ service : Service, service.Reachable ∧ service.Orderly ∧
    service.answers = [.submitted (.issued 0), .result (.issued 0) (.ok ⟨.empty, 0⟩),
      .awaited (.issued 0) (.error (.jobNotFound (.issued 0)))] := by
  have first : Permits ⟨.seeded 7, [.track ⟨"reset", 1, 0, #[.reset [0] []]⟩ 0 false], [], []⟩
      ⟨.issued 0, 0, (Simulator.seeded 7).source⟩ := ⟨nofun, fun _ => rfl⟩
  have later (service : Service) (source : service.simulator.source = (Simulator.seeded 7).source)
      (issued : service.issued = [.issued 0]) : service.Permits ⟨.issued 1, 0, (Simulator.seeded 7).source⟩ :=
    ⟨issued ▸ by decide, fun _ => source.symm⟩
  have tracked := ((Reachable.opened rfl).step (.begin _ (.submit _ _))).step (.goOn (.refl _) first)
  have closed := tracked.step (.goOn (.refl _) (later _ rfl rfl))
  have collected := (closed.step (.begin _ (.result (.issued 0)))).step (.goOn (.refl _) (later _ rfl rfl))
  have missed := (collected.step (.begin _ (.wait (.issued 0)))).step (.goOn (.refl _) (later _ rfl rfl))
  exact ⟨_, missed, lifecycle missed, rfl⟩

end Service

end CircuitCloak
