import Maxim.Library.Levelling

/-!
# The plan of the default webhook leases

The plan says which worker group each of the default queues should have. It
takes the dynamic queues one after the other, the queue with the largest
pressure first, and counts every move in the loads of the groups.
-/

namespace Maxim.Webhook.LeasePlan

open Maxim.Library.Levelling

inductive DefaultWebhookWorkerGroupName
  | moderation
  | moderationRealtimeB
  | moderationRealtimeC
  | moderationRealtimeD
  deriving DecidableEq

def DefaultWebhookWorkerGroupName.text : DefaultWebhookWorkerGroupName → String
  | .moderation => "api-moderation"
  | .moderationRealtimeB => "api-moderation-realtime-b"
  | .moderationRealtimeC => "api-moderation-realtime-c"
  | .moderationRealtimeD => "api-moderation-realtime-d"

def DEFAULT_WEBHOOK_WORKER_GROUP_NAMES : List DefaultWebhookWorkerGroupName :=
  [.moderation, .moderationRealtimeB, .moderationRealtimeC, .moderationRealtimeD]

def DEFAULT_WEBHOOK_SHARD_COUNT : Nat := 16

abbrev DefaultWebhookQueueName := Fin DEFAULT_WEBHOOK_SHARD_COUNT

def queueText (queueName : DefaultWebhookQueueName) : String := "moderation-default-" ++ toString queueName.val

def DEFAULT_WEBHOOK_QUEUE_NAMES : List DefaultWebhookQueueName := List.finRange DEFAULT_WEBHOOK_SHARD_COUNT

/-- `getDefaultWebhookHomeOwnerByQueue`: the shards go round the groups. -/
def homeOwnerByQueue (queueName : DefaultWebhookQueueName) : DefaultWebhookWorkerGroupName :=
  match queueName.val % 4 with
  | 0 => .moderation
  | 1 => .moderationRealtimeB
  | 2 => .moderationRealtimeC
  | _ => .moderationRealtimeD

inductive WebhookDynamicLeasesMode
  | off
  | shadow
  | canary
  | on
  deriving DecidableEq

structure DefaultWebhookLeaseCounters where
  waiting : Nat
  prioritized : Nat
  active : Nat
  delayed : Nat

structure DefaultWebhookLeasePlanInput where
  mode : WebhookDynamicLeasesMode
  canaryQueues : Option (DefaultWebhookQueueName → Bool)
  aliveWorkerGroups : Option (List DefaultWebhookWorkerGroupName)
  claimedOwners : DefaultWebhookQueueName → Option String
  /-- A handoff time that is no finite number is none. -/
  lastHandoffAtMs : DefaultWebhookQueueName → Option Int
  queueCounters : DefaultWebhookQueueName → DefaultWebhookLeaseCounters
  rebalanceCooldownMs : Int
  suppressRebalance : Bool

inductive Reason
  | staticHome
  | bootstrapHome
  | keepActiveOwner
  | keepPressureOwner
  | keepCooldownOwner
  | keepCurrentOwner
  | rebalanceLeastLoaded
  | ownerUnavailable
  deriving DecidableEq

structure DefaultWebhookLeasePlanEntry where
  homeOwner : DefaultWebhookWorkerGroupName
  eligibleForDynamicLeases : Bool
  currentOwner : DefaultWebhookWorkerGroupName
  desiredOwner : DefaultWebhookWorkerGroupName
  handoffPending : Bool
  activeJobs : Nat
  pressure : Nat
  reason : Reason

structure DefaultWebhookLeasePlan where
  queues : DefaultWebhookQueueName → DefaultWebhookLeasePlanEntry
  workerLoads : DefaultWebhookWorkerGroupName → Int

def ACTIVE_WEIGHT : Nat := 4
def MIN_PRESSURE_TO_REBALANCE : Nat := ACTIVE_WEIGHT

def shouldRebalanceQueue (currentOwner desiredOwner : DefaultWebhookWorkerGroupName) (pressure : Nat)
    (workerLoads : DefaultWebhookWorkerGroupName → Int) : Bool :=
  if desiredOwner = currentOwner ∨ pressure = 0 then false
  else pressure < workerLoads currentOwner - workerLoads desiredOwner

def normalizeWorkerGroups (aliveWorkerGroups : Option (List DefaultWebhookWorkerGroupName)) :
    List DefaultWebhookWorkerGroupName :=
  match aliveWorkerGroups with
  | none | some [] => DEFAULT_WEBHOOK_WORKER_GROUP_NAMES
  | some alive =>
    let normalized := DEFAULT_WEBHOOK_WORKER_GROUP_NAMES.filter (· ∈ alive)
    if 0 < normalized.length then normalized else DEFAULT_WEBHOOK_WORKER_GROUP_NAMES

def resolveDynamicEligibility (mode : WebhookDynamicLeasesMode) (canaryQueues : DefaultWebhookQueueName → Bool)
    (queueName : DefaultWebhookQueueName) : Bool :=
  match mode with
  | .on => true
  | .canary => canaryQueues queueName
  | .off | .shadow => false

def measurePressure (counters : DefaultWebhookLeaseCounters) : Nat :=
  counters.waiting + counters.prioritized + counters.active * ACTIVE_WEIGHT + counters.delayed

/-- What the process gives: the comparison of names, its canary queues and the clock. -/
structure Process where
  localeCompare : String → String → Int
  canaryQueues : DefaultWebhookQueueName → Bool
  nowMs : Int

def ownerOrder (process : Process) (currentOwner homeOwner : DefaultWebhookWorkerGroupName)
    (workerLoads : DefaultWebhookWorkerGroupName → Int) (left right : DefaultWebhookWorkerGroupName) : Int :=
  let loadDiff := workerLoads left - workerLoads right
  if loadDiff ≠ 0 then loadDiff
  else if left = currentOwner ∧ right ≠ currentOwner then -1
  else if right = currentOwner ∧ left ≠ currentOwner then 1
  else if left = homeOwner ∧ right ≠ homeOwner then -1
  else if right = homeOwner ∧ left ≠ homeOwner then 1
  else process.localeCompare left.text right.text

def chooseLeastLoadedOwner (process : Process) (candidateOwners : List DefaultWebhookWorkerGroupName)
    (currentOwner homeOwner : DefaultWebhookWorkerGroupName)
    (workerLoads : DefaultWebhookWorkerGroupName → Int) : DefaultWebhookWorkerGroupName :=
  -- there are always candidates
  (candidateOwners.insertionSort fun left right =>
    ownerOrder process currentOwner homeOwner workerLoads left right ≤ 0).headD currentOwner

section Plan

variable (process : Process) (input : DefaultWebhookLeasePlanInput)

def eligible (queueName : DefaultWebhookQueueName) : Bool :=
  resolveDynamicEligibility input.mode (input.canaryQueues.getD process.canaryQueues) queueName

def pressure (queueName : DefaultWebhookQueueName) : Nat := measurePressure (input.queueCounters queueName)

def currentOwnerByQueue (queueName : DefaultWebhookQueueName) : DefaultWebhookWorkerGroupName :=
  match input.claimedOwners queueName with
  | none => homeOwnerByQueue queueName
  | some claimedOwner =>
    (DEFAULT_WEBHOOK_WORKER_GROUP_NAMES.find? (·.text = claimedOwner)).getD (homeOwnerByQueue queueName)

def workerLoadsBefore : DefaultWebhookWorkerGroupName → Int :=
  DEFAULT_WEBHOOK_QUEUE_NAMES.foldl (fun workerLoads queueName =>
    let owner := currentOwnerByQueue input queueName
    Function.update workerLoads owner (workerLoads owner + pressure input queueName)) fun _ => 0

def queueOrder (left right : DefaultWebhookQueueName) : Int :=
  let diff : Int := pressure input right - pressure input left
  if diff ≠ 0 then diff else process.localeCompare (queueText left) (queueText right)

def dynamicQueues : List DefaultWebhookQueueName :=
  (DEFAULT_WEBHOOK_QUEUE_NAMES.filter fun queueName => eligible process input queueName).insertionSort
    fun left right => queueOrder process input left right ≤ 0

/-- The entry of a queue before its turn. -/
def firstEntry (queueName : DefaultWebhookQueueName) : DefaultWebhookLeasePlanEntry where
  homeOwner := homeOwnerByQueue queueName
  eligibleForDynamicLeases := eligible process input queueName
  currentOwner := currentOwnerByQueue input queueName
  desiredOwner := currentOwnerByQueue input queueName
  handoffPending := false
  activeJobs := (input.queueCounters queueName).active
  pressure := pressure input queueName
  reason := if eligible process input queueName then .bootstrapHome else .staticHome

def cooldownActive (queueName : DefaultWebhookQueueName) : Bool :=
  (input.lastHandoffAtMs queueName).any fun lastHandoffAt =>
    process.nowMs - lastHandoffAt < input.rebalanceCooldownMs

def movedLoads (workerLoads : DefaultWebhookWorkerGroupName → Int)
    (currentOwner desiredOwner : DefaultWebhookWorkerGroupName) (pressure : Nat) :
    DefaultWebhookWorkerGroupName → Int :=
  let less := Function.update workerLoads currentOwner (max 0 (workerLoads currentOwner - pressure))
  Function.update less desiredOwner (less desiredOwner + pressure)

def DefaultWebhookLeasePlan.keep (plan : DefaultWebhookLeasePlan) (queueName : DefaultWebhookQueueName)
    (reason : Reason) : DefaultWebhookLeasePlan :=
  let queue := plan.queues queueName
  { plan with
    queues := Function.update plan.queues queueName
      { queue with desiredOwner := queue.currentOwner, reason := reason } }

/-- The turn of a dynamic queue. -/
def takeTurn (plan : DefaultWebhookLeasePlan) (queueName : DefaultWebhookQueueName) : DefaultWebhookLeasePlan :=
  let aliveWorkerGroups := normalizeWorkerGroups input.aliveWorkerGroups
  let queue := plan.queues queueName
  let desiredOwner := chooseLeastLoadedOwner process aliveWorkerGroups queue.currentOwner queue.homeOwner
    plan.workerLoads
  if queue.currentOwner ∉ aliveWorkerGroups then
    { queues := Function.update plan.queues queueName
        { queue with
          desiredOwner := desiredOwner
          handoffPending := desiredOwner ≠ queue.currentOwner
          reason := .ownerUnavailable }
      workerLoads :=
        if desiredOwner ≠ queue.currentOwner then
          movedLoads plan.workerLoads queue.currentOwner desiredOwner queue.pressure
        else plan.workerLoads }
  else if 0 < queue.activeJobs then plan.keep queueName .keepActiveOwner
  else if cooldownActive process input queueName then plan.keep queueName .keepCooldownOwner
  else if input.suppressRebalance then plan.keep queueName .keepPressureOwner
  else if queue.pressure < MIN_PRESSURE_TO_REBALANCE then plan.keep queueName .keepPressureOwner
  else if !shouldRebalanceQueue queue.currentOwner desiredOwner queue.pressure plan.workerLoads then
    plan.keep queueName .keepCurrentOwner
  else
    { queues := Function.update plan.queues queueName
        { queue with desiredOwner := desiredOwner, handoffPending := true, reason := .rebalanceLeastLoaded }
      workerLoads := movedLoads plan.workerLoads queue.currentOwner desiredOwner queue.pressure }

def buildDefaultWebhookLeasePlan : DefaultWebhookLeasePlan :=
  (dynamicQueues process input).foldl (takeTurn process input)
    ⟨firstEntry process input, workerLoadsBefore input⟩

end Plan

/-! ## The plan as a pass of levelling -/

section Pass

variable {process : Process} {input : DefaultWebhookLeasePlanInput} {plan : DefaultWebhookLeasePlan}
  {queueName : DefaultWebhookQueueName}

def DefaultWebhookLeasePlan.board (plan : DefaultWebhookLeasePlan) :
    Board DefaultWebhookQueueName DefaultWebhookWorkerGroupName :=
  ⟨fun queueName => (plan.queues queueName).desiredOwner, plan.workerLoads⟩

def Fixed (process : Process) (input : DefaultWebhookLeasePlanInput) (queueName : DefaultWebhookQueueName) : Prop :=
  0 < (input.queueCounters queueName).active ∨ cooldownActive process input queueName = true ∨
    input.suppressRebalance = true ∨ pressure input queueName < MIN_PRESSURE_TO_REBALANCE

theorem aliveWorkerGroups_ne_nil (aliveWorkerGroups : Option (List DefaultWebhookWorkerGroupName)) :
    normalizeWorkerGroups aliveWorkerGroups ≠ [] := by
  unfold normalizeWorkerGroups
  split
  · exact List.cons_ne_nil _ _
  · exact List.cons_ne_nil _ _
  · dsimp only
    split
    · next h => exact List.length_pos_iff.mp h
    · exact List.cons_ne_nil _ _

/-- The candidate that comes first has the least load. -/
theorem choose_least (process : Process) {candidates : List DefaultWebhookWorkerGroupName} (hne : candidates ≠ [])
    (currentOwner homeOwner : DefaultWebhookWorkerGroupName)
    (s : Board DefaultWebhookQueueName DefaultWebhookWorkerGroupName) :
    Least candidates s (chooseLeastLoadedOwner process candidates currentOwner homeOwner s.load) := by
  have hload : ∀ a b, ownerOrder process currentOwner homeOwner s.load a b ≤ 0 → s.load a ≤ s.load b := by
    intro a b h
    by_cases hdiff : s.load a - s.load b ≠ 0
    · simp only [ownerOrder, if_pos hdiff] at h
      omega
    · omega
  have hload' : ∀ a b, ¬ ownerOrder process currentOwner homeOwner s.load a b ≤ 0 → s.load b ≤ s.load a := by
    intro a b h
    by_cases hdiff : s.load a - s.load b ≠ 0
    · simp only [ownerOrder, if_pos hdiff] at h
      omega
    · omega
  have hsorted := pairwise_insertionSort_of_respects (R := fun a b => s.load a ≤ s.load b)
    (fun _ _ _ => Int.le_trans) hload hload' candidates
  have hmem := fun g => List.mem_insertionSort (x := g) (l := candidates)
    fun a b => ownerOrder process currentOwner homeOwner s.load a b ≤ 0
  rw [chooseLeastLoadedOwner]
  cases hsort : candidates.insertionSort fun a b => ownerOrder process currentOwner homeOwner s.load a b ≤ 0 with
  | nil =>
    obtain ⟨g, hg⟩ := List.exists_mem_of_ne_nil _ hne
    exact absurd ((hmem g).mpr hg) (hsort ▸ List.not_mem_nil)
  | cons first rest =>
    rw [hsort] at hsorted
    refine ⟨(hmem first).mp (hsort ▸ List.mem_cons_self), fun g hg => ?_⟩
    have hg := (hmem g).mpr hg
    rw [hsort] at hg
    rcases List.mem_cons.mp hg with rfl | hg
    · exact Int.le_refl _
    · exact (List.pairwise_cons.mp hsorted).1 g hg

theorem keep_board {reason : Reason} (h : (plan.queues queueName).desiredOwner = (plan.queues queueName).currentOwner) :
    (plan.keep queueName reason).board = plan.board := by
  refine congrArg (Board.mk · plan.workerLoads) (funext fun q => ?_)
  by_cases hq : q = queueName
  · subst hq
    simp only [DefaultWebhookLeasePlan.keep, Function.update_self, h]
  · simp only [DefaultWebhookLeasePlan.keep, Function.update_of_ne hq]

theorem moved_board (group : DefaultWebhookWorkerGroupName) (pending : Bool) (reason : Reason)
    (h : (plan.queues queueName).desiredOwner = (plan.queues queueName).currentOwner)
    (hpressure : (plan.queues queueName).pressure = pressure input queueName) :
    DefaultWebhookLeasePlan.board
      { queues := Function.update plan.queues queueName
          { plan.queues queueName with desiredOwner := group, handoffPending := pending, reason := reason }
        workerLoads := movedLoads plan.workerLoads (plan.queues queueName).currentOwner group
          (plan.queues queueName).pressure } = plan.board.move (pressure input) queueName group := by
  rw [DefaultWebhookLeasePlan.board, Board.move, hpressure, ← h]
  refine congrArg (Board.mk · _) (funext fun q => ?_)
  by_cases hq : q = queueName
  · subst hq
    simp only [Function.update_self]
  · simp only [Function.update_of_ne hq]
    rfl

/-- The turn of a queue is a step of levelling. -/
theorem takeTurn_step (hfirst : plan.queues queueName = firstEntry process input queueName) :
    Step (normalizeWorkerGroups input.aliveWorkerGroups) (pressure input) (Fixed process input) queueName plan.board
      (takeTurn process input plan queueName).board := by
  have hdesired : (plan.queues queueName).desiredOwner = (plan.queues queueName).currentOwner := by rw [hfirst]; rfl
  have hpressure : (plan.queues queueName).pressure = pressure input queueName := by rw [hfirst]; rfl
  have hactive : (plan.queues queueName).activeJobs = (input.queueCounters queueName).active := by rw [hfirst]; rfl
  have howner : plan.board.owner queueName = (plan.queues queueName).currentOwner := hdesired
  have hleast := choose_least process (aliveWorkerGroups_ne_nil input.aliveWorkerGroups)
    (plan.queues queueName).currentOwner (plan.queues queueName).homeOwner plan.board
  have hload : plan.board.load = plan.workerLoads := rfl
  rw [hload] at hleast
  unfold takeTurn
  dsimp only
  generalize chooseLeastLoadedOwner process (normalizeWorkerGroups input.aliveWorkerGroups)
    (plan.queues queueName).currentOwner (plan.queues queueName).homeOwner plan.workerLoads = desiredOwner at hleast ⊢
  by_cases halive : (plan.queues queueName).currentOwner ∈ normalizeWorkerGroups input.aliveWorkerGroups
  · rw [if_neg (not_not.mpr halive)]
    have halive' := howner ▸ halive
    have hkeep : ∀ reason, Fixed process input queueName → Step (normalizeWorkerGroups input.aliveWorkerGroups)
        (pressure input) (Fixed process input) queueName plan.board (plan.keep queueName reason).board := by
      intro reason hfixed
      rw [keep_board hdesired]
      exact .keep halive' (.inl hfixed)
    split
    · next h => exact hkeep _ (.inl (hactive ▸ h))
    next hinactive =>
    split
    · next h => exact hkeep _ (.inr (.inl h))
    next hwarm =>
    split
    · next h => exact hkeep _ (.inr (.inr (.inl h)))
    next hallowed =>
    split
    · next h => exact hkeep _ (.inr (.inr (.inr (hpressure ▸ h))))
    next hheavy =>
    rw [hactive] at hinactive
    rw [hpressure] at hheavy
    by_cases hlevel : plan.workerLoads desiredOwner + pressure input queueName <
        plan.workerLoads (plan.queues queueName).currentOwner
    · have hne : desiredOwner ≠ (plan.queues queueName).currentOwner := by
        rintro rfl
        omega
      have hshould : shouldRebalanceQueue (plan.queues queueName).currentOwner desiredOwner
          (plan.queues queueName).pressure plan.workerLoads = true := by
        simp only [MIN_PRESSURE_TO_REBALANCE, ACTIVE_WEIGHT] at hheavy
        rw [hpressure, shouldRebalanceQueue, if_neg (by simp only [hne, false_or]; omega)]
        exact decide_eq_true (by omega)
      rw [hshould]
      simp only [Bool.not_true, Bool.false_eq_true, if_false]
      rw [moved_board desiredOwner true .rebalanceLeastLoaded hdesired hpressure]
      refine .level desiredOwner halive' (fun hfixed => ?_) hleast (howner ▸ hlevel)
      rcases hfixed with h | h | h | h
      · exact hinactive h
      · exact hwarm h
      · exact hallowed h
      · exact hheavy h
    · have hshould : shouldRebalanceQueue (plan.queues queueName).currentOwner desiredOwner
          (plan.queues queueName).pressure plan.workerLoads = false := by
        rw [hpressure, shouldRebalanceQueue]
        split
        · rfl
        · exact decide_eq_false (by omega)
      rw [hshould]
      simp only [Bool.not_false, if_true]
      rw [keep_board hdesired]
      refine .keep halive' (.inr fun g hg => ?_)
      have hle := hleast.2 g hg
      rw [howner, hload]
      rw [hload] at hle
      omega
  · rw [if_pos halive]
    have hne : desiredOwner ≠ (plan.queues queueName).currentOwner := fun h => halive (h ▸ hleast.1)
    rw [if_pos hne, moved_board desiredOwner _ .ownerUnavailable hdesired hpressure]
    exact .rescue desiredOwner (howner ▸ halive) hleast

/-- A turn changes its own entry only, and leaves its owner before the plan. -/
theorem takeTurn_entry (plan : DefaultWebhookLeasePlan) (queueName q : DefaultWebhookQueueName) :
    (q ≠ queueName → (takeTurn process input plan queueName).queues q = plan.queues q) ∧
      ((takeTurn process input plan queueName).queues q).currentOwner = (plan.queues q).currentOwner := by
  have hupdate : ∀ entry : DefaultWebhookLeasePlanEntry, entry.currentOwner = (plan.queues queueName).currentOwner →
      (q ≠ queueName → Function.update plan.queues queueName entry q = plan.queues q) ∧
        (Function.update plan.queues queueName entry q).currentOwner = (plan.queues q).currentOwner := by
    intro entry hentry
    by_cases hq : q = queueName
    · subst hq
      exact ⟨fun h => absurd rfl h, by rw [Function.update_self, hentry]⟩
    · rw [Function.update_of_ne hq]
      exact ⟨fun _ => rfl, rfl⟩
  unfold takeTurn
  dsimp only
  split
  · exact hupdate _ rfl
  split
  · exact hupdate _ rfl
  split
  · exact hupdate _ rfl
  split
  · exact hupdate _ rfl
  split
  · exact hupdate _ rfl
  split
  · exact hupdate _ rfl
  · exact hupdate _ rfl

theorem foldl_takeTurn (turns : List DefaultWebhookQueueName) (plan : DefaultWebhookLeasePlan) (honce : turns.Nodup)
    (hfirst : ∀ q ∈ turns, plan.queues q = firstEntry process input q) :
    Pass (normalizeWorkerGroups input.aliveWorkerGroups) (pressure input) (Fixed process input) turns plan.board
        (turns.foldl (takeTurn process input) plan).board ∧
      ∀ q, ((turns.foldl (takeTurn process input) plan).queues q).currentOwner = (plan.queues q).currentOwner := by
  induction turns generalizing plan with
  | nil => exact ⟨.nil _, fun _ => rfl⟩
  | cons q rest ih =>
    obtain ⟨hq, honce⟩ := List.nodup_cons.mp honce
    obtain ⟨hpass, howner⟩ := ih (takeTurn process input plan q) honce fun x hx => by
      rw [(takeTurn_entry plan q x).1 (ne_of_mem_of_not_mem hx hq)]
      exact hfirst x (List.mem_cons_of_mem _ hx)
    exact ⟨.cons (takeTurn_step (hfirst q List.mem_cons_self)) hpass,
      fun x => (howner x).trans (takeTurn_entry plan q x).2⟩

end Pass

/-! ## The whole plan -/

section Whole

variable (process : Process) (input : DefaultWebhookLeasePlanInput)

/-- The pressures of the queues that an assignment gives to a group. -/
def loadOf (owner : DefaultWebhookQueueName → DefaultWebhookWorkerGroupName) (group : DefaultWebhookWorkerGroupName) :
    Nat := weightOf DEFAULT_WEBHOOK_QUEUE_NAMES (pressure input) owner group

theorem workerLoadsBefore_eq (group : DefaultWebhookWorkerGroupName) :
    workerLoadsBefore input group = loadOf input (currentOwnerByQueue input) group := by
  have hfold : ∀ (l : List DefaultWebhookQueueName) (loads : DefaultWebhookWorkerGroupName → Int),
      l.foldl (fun workerLoads queueName =>
        let owner := currentOwnerByQueue input queueName
        Function.update workerLoads owner (workerLoads owner + (pressure input queueName : Int))) loads group =
      loads group + (weightOf l (pressure input) (currentOwnerByQueue input) group : Nat) := by
    intro l
    induction l with
    | nil => simp [weightOf]
    | cons q rest ih =>
      intro loads
      rw [List.foldl_cons, ih]
      simp only [weightOf, List.map_cons, List.sum_cons]
      by_cases howner : currentOwnerByQueue input q = group
      · subst howner
        rw [Function.update_self, if_pos rfl]
        omega
      · rw [Function.update_of_ne (Ne.symm howner), if_neg howner]
        omega
  exact (hfold _ _).trans (Int.zero_add _)

theorem mem_dynamicQueues (q : DefaultWebhookQueueName) :
    q ∈ dynamicQueues process input ↔ eligible process input q = true := by
  rw [dynamicQueues, List.mem_insertionSort, List.mem_filter]
  exact and_iff_right (List.mem_finRange q)

theorem dynamicQueues_nodup : (dynamicQueues process input).Nodup := by
  have hperm : (dynamicQueues process input).Perm
      (DEFAULT_WEBHOOK_QUEUE_NAMES.filter fun queueName => eligible process input queueName) :=
    List.perm_insertionSort (fun left right => queueOrder process input left right ≤ 0) _
  exact hperm.nodup_iff.mpr ((List.nodup_finRange _).filter _)

theorem dynamicQueues_heaviest_first :
    (dynamicQueues process input).Pairwise fun q q' => pressure input q' ≤ pressure input q := by
  have hrespects : ∀ a b, (queueOrder process input a b ≤ 0 → pressure input b ≤ pressure input a) ∧
      (¬ queueOrder process input a b ≤ 0 → pressure input a ≤ pressure input b) := by
    intro a b
    by_cases hdiff : (pressure input b : Int) - pressure input a ≠ 0
    · simp only [queueOrder, if_pos hdiff]
      omega
    · omega
  exact pairwise_insertionSort_of_respects (r := fun a b => queueOrder process input a b ≤ 0)
    (R := fun a b => pressure input b ≤ pressure input a) (fun _ _ _ h h' => Nat.le_trans h' h)
    (fun a b => (hrespects a b).1) (fun a b => (hrespects a b).2) _

theorem plan_pass : Pass (normalizeWorkerGroups input.aliveWorkerGroups) (pressure input) (Fixed process input)
    (dynamicQueues process input) ⟨currentOwnerByQueue input, workerLoadsBefore input⟩
    (buildDefaultWebhookLeasePlan process input).board :=
  (foldl_takeTurn (dynamicQueues process input) ⟨firstEntry process input, workerLoadsBefore input⟩
    (dynamicQueues_nodup process input) fun _ _ => rfl).1

theorem before_accurate : Accurate DEFAULT_WEBHOOK_QUEUE_NAMES (pressure input)
    ⟨currentOwnerByQueue input, workerLoadsBefore input⟩ := workerLoadsBefore_eq input

/-- The inputs of a plan that is made again from the owners of the plan. A queue in cooldown still is. -/
structure Again (process again : Process) (input next : DefaultWebhookLeasePlanInput) : Prop where
  eligible : ∀ q, eligible again next q = eligible process input q
  alive : next.aliveWorkerGroups = input.aliveWorkerGroups
  counters : next.queueCounters = input.queueCounters
  owners : ∀ q, next.claimedOwners q =
    some ((buildDefaultWebhookLeasePlan process input).queues q).desiredOwner.text
  cooldown : ∀ q, cooldownActive process input q = true → cooldownActive again next q = true
  suppress : input.suppressRebalance = true → next.suppressRebalance = true

theorem currentOwner_again {process again : Process} {input next : DefaultWebhookLeasePlanInput}
    (h : Again process again input next) (q : DefaultWebhookQueueName) :
    currentOwnerByQueue next q = ((buildDefaultWebhookLeasePlan process input).queues q).desiredOwner := by
  rw [currentOwnerByQueue, h.owners q]
  cases ((buildDefaultWebhookLeasePlan process input).queues q).desiredOwner <;> rfl

/-- The plan moves dynamic queues only, away from groups that are gone and never from a busy or cooling
queue. Its loads are those of the desired owners, it makes no load larger than the largest one, and a plan
that is made again from its owners moves nothing. -/
theorem lease_plan_conservative_and_stable :
    (∀ q, eligible process input q = false →
      ((buildDefaultWebhookLeasePlan process input).queues q).desiredOwner = currentOwnerByQueue input q) ∧
    (∀ q, eligible process input q = true →
      currentOwnerByQueue input q ∉ normalizeWorkerGroups input.aliveWorkerGroups →
      ((buildDefaultWebhookLeasePlan process input).queues q).desiredOwner ∈
        normalizeWorkerGroups input.aliveWorkerGroups) ∧
    (∀ q, currentOwnerByQueue input q ∈ normalizeWorkerGroups input.aliveWorkerGroups →
      0 < (input.queueCounters q).active ∨ cooldownActive process input q = true →
      ((buildDefaultWebhookLeasePlan process input).queues q).desiredOwner = currentOwnerByQueue input q) ∧
    (∀ group, (buildDefaultWebhookLeasePlan process input).workerLoads group =
      loadOf input (fun q => ((buildDefaultWebhookLeasePlan process input).queues q).desiredOwner) group) ∧
    ((∀ q, currentOwnerByQueue input q ∈ normalizeWorkerGroups input.aliveWorkerGroups) →
      ∀ group, ∃ group', (buildDefaultWebhookLeasePlan process input).workerLoads group ≤
        loadOf input (currentOwnerByQueue input) group') ∧
    ∀ again next, Again process again input next → ∀ q,
      currentOwnerByQueue next q = ((buildDefaultWebhookLeasePlan process input).queues q).desiredOwner ∧
      ((buildDefaultWebhookLeasePlan again next).queues q).desiredOwner = currentOwnerByQueue next q := by
  have hpass := plan_pass process input
  have hbefore := before_accurate input
  have hnodup : DEFAULT_WEBHOOK_QUEUE_NAMES.Nodup := List.nodup_finRange _
  have hall : ∀ turns : List DefaultWebhookQueueName, ∀ q ∈ turns, q ∈ DEFAULT_WEBHOOK_QUEUE_NAMES :=
    fun _ q _ => List.mem_finRange q
  have honce := dynamicQueues_nodup process input
  have hsettled := (hpass.settles hbefore hnodup (hall _) honce (dynamicQueues_heaviest_first process input)).1
  have hafter := hpass.accurate hbefore hnodup (hall _)
  refine ⟨fun q hq => ?_, fun q hq _ => ?_, fun q halive hstay => ?_, fun group => hafter group, fun halive group => ?_,
    fun again next h q => ⟨currentOwner_again h q, ?_⟩⟩
  · refine hpass.owner_other fun hmem => ?_
    rw [mem_dynamicQueues, hq] at hmem
    exact Bool.false_ne_true hmem
  · exact (hsettled q ((mem_dynamicQueues process input q).mpr hq)).1
  · exact hpass.owner_fixed honce (hstay.imp_right .inl) halive
  · by_contra hlarger
    have hbound : ∀ g, workerLoadsBefore input g ≤ (buildDefaultWebhookLeasePlan process input).workerLoads group - 1 := by
      intro g
      have hg := mt (fun hle => ⟨g, hle⟩) hlarger
      rw [workerLoadsBefore_eq]
      omega
    have hle := hpass.load_le hbefore hnodup (hall _) honce (fun q _ => halive q) hbound group
    change (buildDefaultWebhookLeasePlan process input).workerLoads group ≤ _ at hle
    omega
  · -- the second plan starts from the board that the first one ends with
    have hpressure : pressure next = pressure input := funext fun x => by rw [pressure, h.counters, pressure]
    have hboard : (⟨currentOwnerByQueue next, workerLoadsBefore next⟩ : Board _ _) =
        (buildDefaultWebhookLeasePlan process input).board := by
      have howner : currentOwnerByQueue next = (buildDefaultWebhookLeasePlan process input).board.owner :=
        funext (currentOwner_again h)
      refine (Board.mk.injEq ..).mpr ⟨howner, funext fun g => ?_⟩
      rw [workerLoadsBefore_eq, loadOf, hpressure, howner]
      exact (hafter g).symm
    have hagain := plan_pass again next
    rw [hboard, hpressure, h.alive] at hagain
    have hstill := hagain.eq_of_settled fun x hx => by
      rw [mem_dynamicQueues, h.eligible, ← mem_dynamicQueues] at hx
      refine (hsettled x hx).mono fun hfixed => ?_
      rw [Fixed, h.counters, hpressure]
      rcases hfixed with hactive | hcooldown | hsuppress | hlight
      · exact .inl hactive
      · exact .inr (.inl (h.cooldown x hcooldown))
      · exact .inr (.inr (.inl (h.suppress hsuppress)))
      · exact .inr (.inr (.inr hlight))
    exact (congrArg (fun b : Board _ _ => b.owner q) hstill).trans (currentOwner_again h q).symm

end Whole

end Maxim.Webhook.LeasePlan
