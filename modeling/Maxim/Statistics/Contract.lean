import Maxim.Library.CivilDate
import Mathlib.Data.String.Basic
import Mathlib.Algebra.GroupWithZero.Nat

/-!
# The contract of the central statistics

The values that the two products exchange: days and times of UTC, the scopes of
the measurements with their values and coverages, the health of a source, and
the requests of the ingest. A number that the wire carries as a decimal text is
a natural number here.
-/

namespace Maxim.Statistics

open Maxim.Library

def int64 : Nat := 9223372036854775807

def int32 : Nat := 2147483647

/-! ## Days and times -/

/-- A day `YYYY-MM-DD`, numbered from 1970-01-01. -/
structure StatsDay where
  number : Int
  year_digits : dayOfCivil ⟨0, 1, 1⟩ ≤ number ∧ number ≤ dayOfCivil ⟨9999, 12, 31⟩
  deriving DecidableEq

/-- A time of UTC with the digits of its fraction. -/
structure StatsTime where
  day : StatsDay
  second : Fin 86400
  fraction : List (Fin 10)
  precision : fraction.length ≤ 6
  deriving DecidableEq

/-- The decimal number of the first `width` digits, filled up with zeros. -/
def fractionOf (width : Nat) (digits : List (Fin 10)) : Nat :=
  ((digits ++ List.replicate width 0).take width).foldl (fun n d => n * 10 + d) 0

/-- `Date.parse`: milliseconds, without the digits after them. -/
def StatsTime.parse (t : StatsTime) : Int :=
  (t.day.number * 86400 + t.second) * 1000 + fractionOf 3 t.fraction

/-- `timeKey` as a number of microseconds: the texts have one width and compare like these. -/
def timeKey (t : StatsTime) : Int :=
  (t.day.number * 86400 + t.second) * 1000000 + fractionOf 6 t.fraction

def StatsTime.text (t : StatsTime) : List Char :=
  isoDate t.day.number ++ 'T' :: padStart 2 (t.second / 3600) ++
    ':' :: padStart 2 (t.second / 60 % 60) ++ ':' :: padStart 2 (t.second % 60) ++
    (if t.fraction = [] then [] else '.' :: t.fraction.map fun d => Nat.digitChar d) ++ ['Z']

/-! ## Scopes -/

inductive Metric
  | audience
  | membership
  | reach
  | publicationHour
  deriving DecidableEq

def Metric.text : Metric → String
  | .audience => "AUDIENCE"
  | .membership => "MEMBERSHIP"
  | .reach => "REACH"
  | .publicationHour => "PUBLICATION_HOUR"

inductive MethodId
  | audienceSnapshot
  | postPublicationDay
  | timedPostPublicationDay
  | recentPostSample20
  | publicationDayHours
  | observedMemberEvents
  | maxframeExternalCalendar
  deriving DecidableEq

def MethodId.text : MethodId → String
  | .audienceSnapshot => "AUDIENCE_SNAPSHOT"
  | .postPublicationDay => "POST_PUBLICATION_DAY"
  | .timedPostPublicationDay => "TIMED_POST_PUBLICATION_DAY"
  | .recentPostSample20 => "RECENT_POST_SAMPLE_20"
  | .publicationDayHours => "PUBLICATION_DAY_HOURS"
  | .observedMemberEvents => "OBSERVED_MEMBER_EVENTS"
  | .maxframeExternalCalendar => "MAXFRAME_EXTERNAL_CALENDAR"

/-- `StatsMetricKey`. Every method has version 1. -/
structure MetricKey where
  metric : Metric
  horizon : Nat
  method : MethodId
  deriving DecidableEq

def keyOf (s : MetricKey) : String :=
  s.metric.text ++ ":" ++ toString s.horizon ++ ":" ++ s.method.text ++ ":1"

def audienceScope : MetricKey := ⟨.audience, 0, .audienceSnapshot⟩
def externalScope : MetricKey := ⟨.audience, 0, .maxframeExternalCalendar⟩
def currentScope : MetricKey := ⟨.reach, 0, .postPublicationDay⟩
def timedScope (horizon : Nat) : MetricKey := ⟨.reach, horizon, .timedPostPublicationDay⟩
def recentScope : MetricKey := ⟨.reach, 0, .recentPostSample20⟩
def publicationScope : MetricKey := ⟨.publicationHour, 0, .publicationDayHours⟩
def membershipScope : MetricKey := ⟨.membership, 0, .observedMemberEvents⟩

def scopes : List MetricKey :=
  [audienceScope, externalScope, currentScope, timedScope 24, timedScope 48, recentScope,
    publicationScope, membershipScope]

structure DayKey where
  scope : MetricKey
  day : StatsDay
  deriving DecidableEq

def membershipDay (day : StatsDay) : DayKey := ⟨membershipScope, day⟩

/-! ## Values and coverages -/

structure ReachValue where
  views : Option Nat
  samples : Nat
  posts : Option Nat
  observedFrom : Option StatsTime
  observedTo : Option StatsTime
  maxDelaySeconds : Option Nat
  deriving DecidableEq

structure MembershipValue where
  joined : Option Nat
  left : Option Nat
  observedFrom : Option StatsTime
  observedTo : Option StatsTime
  deriving DecidableEq

/-- `StatsValue`. The literals of an external audience are left out. -/
inductive Value
  | audience (value : Option Nat) (observedAt : Option StatsTime)
  | externalAudience (value : Option Nat) (fetchedAt : StatsTime)
  | reach (v : ReachValue)
  | recentReach (v : ReachValue) (publicationFrom publicationTo : Option StatsTime)
  | publication (hours : List (Option Nat)) (observedFrom observedTo : Option StatsTime)
  | membership (v : MembershipValue)
  deriving DecidableEq

def Value.observed : Value → Option StatsTime × Option StatsTime
  | .audience _ observedAt => (observedAt, observedAt)
  | .externalAudience _ _ => (none, none)
  | .reach v => (v.observedFrom, v.observedTo)
  | .recentReach v _ _ => (v.observedFrom, v.observedTo)
  | .publication _ observedFrom observedTo => (observedFrom, observedTo)
  | .membership v => (v.observedFrom, v.observedTo)

inductive CoverageState
  | complete
  | partially
  | unknown
  deriving DecidableEq

structure Interval where
  start : StatsTime
  stop : StatsTime
  deriving DecidableEq

structure Coverage where
  state : CoverageState
  intervals : List Interval
  populationComplete : Bool
  deriving DecidableEq

def validateReach (v : ReachValue) : Bool :=
  v.posts.all (v.samples ≤ ·) && !(v.views.isNone && 0 < v.samples) &&
    v.views.all (· ≤ v.samples * int32) &&
    !(0 < v.samples && (v.observedFrom.isNone || v.observedTo.isNone)) &&
    v.observedFrom.all fun start => v.observedTo.all fun stop => timeKey start ≤ timeKey stop

def reachValue (count : Nat) (v : ReachValue) : Bool :=
  v.views.all (· ≤ int64) && v.samples ≤ count && v.posts.all (· ≤ count) &&
    v.maxDelaySeconds.all (· ≤ 900) && validateReach v

/-- The value schema of a scope that can be replaced. -/
def valueSchema (scope : MetricKey) : Value → Bool
  | .audience value _ => scope = audienceScope && value.all (· ≤ int32)
  | .externalAudience value _ => scope = externalScope && value.all (· ≤ int32)
  | .reach v =>
    (scope = currentScope || scope = timedScope 24 || scope = timedScope 48) && reachValue int32 v
  | .recentReach v _ _ => scope = recentScope && reachValue 20 v
  | .publication hours _ _ =>
    scope = publicationScope && hours.length = 24 && hours.all (·.all (· ≤ int32)) &&
      (hours.map (·.getD 0)).sum ≤ int32
  | .membership _ => false

/-- The refinement of `intervals`: each is not empty and begins after the one before it. -/
def intervalsOrdered : Option Int → List Interval → Bool
  | _, [] => true
  | stop, row :: rows =>
    timeKey row.start < timeKey row.stop && stop.all (· ≤ timeKey row.start) &&
      intervalsOrdered (some (timeKey row.stop)) rows

def coverageSchema (c : Coverage) : Bool :=
  c.intervals.length ≤ 512 && intervalsOrdered none c.intervals

/-! ## Health -/

inductive HealthState
  | unknown
  | ok
  | error
  deriving DecidableEq

inductive HealthError
  | sourceUnavailable
  | accessUnavailable
  | rateLimited
  | incompleteScan
  | missedHorizon
  deriving DecidableEq

structure Health where
  state : HealthState
  lastAttemptAt : Option StatsTime
  lastSuccessAt : Option StatsTime
  nextExpectedAt : Option StatsTime
  errorCode : Option HealthError
  deriving DecidableEq

def healthSchema (h : Health) : Bool := (h.state = .error) == h.errorCode.isSome

/-! ## Requests of the ingest -/

inductive EntityKind
  | channel
  | chat
  deriving DecidableEq

structure Entity where
  kind : EntityKind
  maxId : String
  deriving DecidableEq

structure Authority where
  id : String
  epoch : Nat
  deriving DecidableEq

inductive EventType
  | join
  | leave
  deriving DecidableEq

structure MembershipEvent where
  eventId : String
  capturedRevision : Nat
  eventType : EventType
  eventAt : StatsTime
  observedAt : StatsTime
  deriving DecidableEq

inductive Operation
  | replaceDay (key : DayKey) (sourceRevision : Nat) (authority : Authority) (value : Value)
      (coverage : Coverage)
  | deleteDay (key : DayKey) (sourceRevision : Nat) (authority : Authority)
  | addEvents (authority : Authority) (events : List MembershipEvent)
  | reportHealth (scope : MetricKey) (sourceRevision : Nat) (authority : Authority)
      (health : Health)
  deriving DecidableEq

structure IngestRequest where
  requestId : String
  producerEpoch : String
  entity : Entity
  operations : List Operation
  deriving DecidableEq

def positive (revision : Nat) : Bool := 0 < revision && revision ≤ int64

def eventSchema (e : MembershipEvent) : Bool :=
  positive e.capturedRevision && e.eventAt.parse ≤ e.observedAt.parse + 60000

def operationSchema : Operation → Bool
  | .replaceDay key sourceRevision authority value coverage =>
    valueSchema key.scope value && positive sourceRevision && positive authority.epoch &&
      coverageSchema coverage
  | .deleteDay key sourceRevision authority =>
    scopes.contains key.scope && positive sourceRevision && positive authority.epoch
  | .addEvents authority events =>
    positive authority.epoch && events.length ≠ 0 && events.length ≤ 256 && events.all eventSchema
  | .reportHealth scope sourceRevision authority health =>
    scopes.contains scope && positive sourceRevision && positive authority.epoch &&
      healthSchema health

def Operation.scope : Operation → MetricKey
  | .replaceDay key _ _ _ _ => key.scope
  | .deleteDay key _ _ => key.scope
  | .addEvents _ _ => membershipScope
  | .reportHealth scope _ _ _ => scope

/-- What must not occur twice in a request: the scope, the day of the data or none, and whether
the health of the scope is meant. -/
def Operation.slot : Operation → MetricKey × Option StatsDay × Bool
  | .replaceDay key _ _ _ _ => (key.scope, some key.day, false)
  | .deleteDay key _ _ => (key.scope, some key.day, false)
  | .addEvents _ _ => (membershipScope, none, false)
  | .reportHealth scope _ _ _ => (scope, none, true)

def Operation.isAddEvents : Operation → Bool
  | .addEvents _ _ => true
  | _ => false

/-- No operation repeats an earlier slot, events excepted. -/
def slotsDistinct : List (MetricKey × Option StatsDay × Bool) → List Operation → Bool
  | _, [] => true
  | seen, op :: ops =>
    (op.isAddEvents || !seen.contains op.slot) && slotsDistinct (op.slot :: seen) ops

def operationRefined (entity : Entity) (op : Operation) : Bool :=
  !(entity.kind = .chat && (op.scope.metric = .reach || op.scope.metric = .publicationHour)) &&
    match op with
    | .replaceDay key _ _ value coverage =>
      !(coverage.state = .complete && !coverage.populationComplete) &&
        match value with
        | .reach v => !(0 < key.scope.horizon && 0 < v.samples && v.maxDelaySeconds.isNone)
        | _ => true
    | _ => true

def statsIngestRequestSchema (request : IngestRequest) : Bool :=
  request.operations.length ≠ 0 && request.operations.length ≤ 32 &&
    request.operations.all operationSchema && slotsDistinct [] request.operations &&
    request.operations.all (operationRefined request.entity)

end Maxim.Statistics
