import Maxim.Admin.ManagedPoll.Programs
import Maxim.Library.Protocol

/-!
# The ballots of a managed poll

Callbacks arrive in any order, any number of times. The option of a user is that
of the latest callback that was accepted, by the time of the event, and nothing
but an accepted callback of the current publication changes it.
-/

namespace Maxim.Admin.ManagedPoll

open Maxim.Library

variable {ω η : Type}

abbrev Event (ω : Type) := PoolEntry ω Call Op Op.Reply String Unit

/-! ## `recordVote` -/

theorem recover_frame (poll : Poll) (c : Callback) :
    (poll.recover c).identitySalt = poll.identitySalt ∧ (poll.recover c).lockToken = poll.lockToken ∧
      (poll.recover c).renderRevision = poll.renderRevision ∧
      (poll.recover c).options = poll.options := by
  rw [Poll.recover]
  split <;> exact ⟨rfl, rfl, rfl, rfl⟩

theorem recover_status {poll : Poll} (c : Callback) (h : poll.status ≠ .draft) :
    (poll.recover c).status = poll.status := by
  rw [Poll.recover, if_neg]
  intro hrecoverable
  exact h (of_decide_eq_true hrecoverable).1

/-- The callback is of the current publication. -/
structure Current (poll : Poll) (c : Callback) : Prop where
  active : poll.status = .active
  token : nullableString poll.lockToken = nullableString c.publicationToken
  message : (poll.publicationMessageId.map trim).getD "" = c.messageId
  option : c.optionId ∈ poll.options

section Votes

variable [DecidableEq η] {hmac : Hmac η}

/-- A callback is refused, or it casts a vote in the poll that it may have recovered. -/
theorem recordVote_cases (hmac : Hmac η) (s : Ballots η) (c : Callback) :
    (∃ poll, (poll = s.poll ∨ poll = s.poll.recover c) ∧
      (s.recordVote hmac c).1 = { s with poll } ∧ (s.recordVote hmac c).2.isRecorded = false) ∨
      Current (s.poll.recover c) c ∧
        s.recordVote hmac c = Ballots.castVote hmac { s with poll := s.poll.recover c } c := by
  rw [Ballots.recordVote]
  split
  · exact .inl ⟨s.poll, .inl rfl, rfl, rfl⟩
  next hmatches =>
    dsimp only
    split
    · exact .inl ⟨s.poll.recover c, .inr rfl, rfl, rfl⟩
    next hmessage =>
      split
      · exact .inl ⟨s.poll.recover c, .inr rfl, rfl, rfl⟩
      next hstatus =>
        obtain ⟨-, htoken, -, hoption⟩ := of_decide_eq_true (not_not.mp hmatches)
        obtain ⟨-, hlock, -, hoptions⟩ := recover_frame s.poll c
        exact .inr ⟨⟨not_not.mp hstatus, hlock ▸ htoken, not_not.mp hmessage, hoptions ▸ hoption⟩, rfl⟩

/-- What a vote does: it is a replay, it is older than the stored one, or it is counted, for the
stored option or for another one. -/
inductive Casts (identityHash eventHash : η) (s : Ballots η) (c : Callback) : Ballots η → Prop
  | replayed (voter : Voter η) (found : s.findVoter identityHash = some voter)
    (recent : eventHash ∈ voter.recentEventHashes) : Casts identityHash eventHash s c s
  | older (s' : Ballots η) (voter : Voter η) (t : Nat)
    (found : s.findVoter identityHash = some voter) (last : voter.lastEventAt = some t)
    (earlier : c.eventAt < t) (poll : s'.poll = s.poll) (votes : s'.votes = s.votes)
    (voters : s'.voters = upsert Voter.identityHash
      ⟨identityHash, some t, appendRecentEventHash voter.recentEventHashes eventHash⟩ s.voters) :
    Casts identityHash eventHash s c s'
  | counted (s' : Ballots η) (existing : List η)
    (recent : existing = ((s.findVoter identityHash).map Voter.recentEventHashes).getD [])
    (later : ∀ voter, s.findVoter identityHash = some voter →
      ∀ t, voter.lastEventAt = some t → t ≤ c.eventAt)
    (voters : s'.voters = upsert Voter.identityHash
      ⟨identityHash, some c.eventAt, appendRecentEventHash existing eventHash⟩ s.voters)
    (votes : s.optionOf identityHash = some c.optionId ∧ s'.votes = s.votes ∧ s'.poll = s.poll ∨
      s.optionOf identityHash ≠ some c.optionId ∧
        s'.votes = upsert Vote.voter ⟨identityHash, c.optionId⟩ s.votes ∧
        s'.poll = { s.poll with renderRevision := s.poll.renderRevision + 1 }) :
    Casts identityHash eventHash s c s'

theorem castVote_cases (hmac : Hmac η) (s : Ballots η) (c : Callback) :
    Casts (hmac.buildIdentityHash s.poll.identitySalt c.userId)
        (hmac.buildVoteEventHash s.poll.identitySalt c.eventId) s c (s.castVote hmac c).1 ∧
      (s.castVote hmac c).2.isRecorded = true := by
  rw [Ballots.castVote]
  generalize hmac.buildIdentityHash s.poll.identitySalt c.userId = identityHash
  generalize hmac.buildVoteEventHash s.poll.identitySalt c.eventId = eventHash
  dsimp only
  split
  · next hrecent =>
    refine ⟨?_, rfl⟩
    cases hfound : s.findVoter identityHash with
    | none =>
      rw [hfound] at hrecent
      cases hrecent
    | some voter =>
      rw [hfound] at hrecent
      exact .replayed voter hfound hrecent
  split
  · next hearlier =>
    refine ⟨?_, rfl⟩
    obtain ⟨t, ht, hlt⟩ := (Option.any_eq_true _ _).mp hearlier
    obtain ⟨voter, hfound, hlast⟩ := Option.bind_eq_some_iff.mp ht
    rw [ht, hfound]
    exact .older _ voter t hfound hlast (of_decide_eq_true hlt) rfl rfl rfl
  next hlater =>
    have hle : ∀ voter, s.findVoter identityHash = some voter →
        ∀ t, voter.lastEventAt = some t → t ≤ c.eventAt := by
      intro voter hfound t hlast
      rw [hfound, Option.bind_some, hlast] at hlater
      simpa using hlater
    split
    · next hsame => exact ⟨.counted _ _ rfl hle rfl (.inl ⟨hsame, rfl, rfl⟩), rfl⟩
    · next hother => exact ⟨.counted _ _ rfl hle rfl (.inr ⟨hother, rfl, rfl⟩), rfl⟩

/-! ## What a step does -/

variable (hmac)

/-- The callback that a step records. -/
def accepts? (s : Ballots η) (x : Event ω) : Option Callback :=
  match performed? x with
  | some (_, _, ⟨.recordVote c fate, _⟩) =>
    if fate.commits ∧ (s.recordVote hmac c).2.isRecorded then some c else none
  | _ => none

/-- The step is `closeChannelPoll` closing the poll. -/
def closes (s : Ballots η) (x : Event ω) : Bool :=
  match performed? x with
  | some (_, _, ⟨.close fate, _⟩) => fate.commits && s.poll.status == .active
  | _ => false

omit [DecidableEq η] in
def claims? (x : Event ω) : Option String :=
  match performed? x with
  | some (_, _, ⟨.update (.claim lockToken _ _) _, _⟩) => some lockToken
  | _ => none

variable {hmac}

/-- What a step does to the row, the voters and the votes. -/
inductive Effect (hmac : Hmac η) (x : Event ω) (s s' : Ballots η) : Prop
  | kept (voters : s'.voters = s.voters) (votes : s'.votes = s.votes)
    (revision : s'.poll.renderRevision = s.poll.renderRevision) (accepted : accepts? hmac s x = none)
    (open_ : closes s x = false)
  | closed (voters : s'.voters = s.voters) (votes : s'.votes = s.votes)
    (revision : s'.poll.renderRevision = s.poll.renderRevision + 1)
    (accepted : accepts? hmac s x = none) (closed : closes s x = true)
  | accepted (c : Callback) (current : Current (s.poll.recover c) c)
    (cast : Casts (hmac.buildIdentityHash s.poll.identitySalt c.userId)
      (hmac.buildVoteEventHash s.poll.identitySalt c.eventId)
      { s with poll := s.poll.recover c } c s')
    (accepted : accepts? hmac s x = some c) (open_ : closes s x = false)

/-- What every step keeps of the row. -/
structure Frame (x : Event ω) (poll poll' : Poll) : Prop where
  salt : poll'.identitySalt = poll.identitySalt
  published : poll.status ≠ .draft → poll'.status ≠ .draft
  token : poll'.lockToken = poll.lockToken ∨ poll'.lockToken = none ∧ poll.status = .draft ∨
    ∃ lockToken, claims? x = some lockToken ∧ poll'.lockToken = some lockToken

theorem Frame.refl (x : Event ω) (poll : Poll) : Frame x poll poll := ⟨rfl, id, .inl rfl⟩

theorem frame_of_recover (x : Event ω) (poll : Poll) (c : Callback) : Frame x poll (poll.recover c) := by
  obtain ⟨hsalt, hlock, -, -⟩ := recover_frame poll c
  exact ⟨hsalt, fun h => recover_status c h ▸ h, .inl hlock⟩

theorem frame_of_update {w : ω} {i : Call} {u : Update} {fate : Fate} {r : Except String Bool}
    {x : Event ω} {poll : Poll} (hx : performed? x = some (w, i, ⟨.update u fate, r⟩))
    (hguard : u.guard poll = true) : Frame x poll (u.data poll) := by
  cases u with
  | claim lockToken publicationBotId lockedAt =>
    refine ⟨rfl, fun h => absurd (of_decide_eq_true hguard).1 h, .inr (.inr ⟨lockToken, ?_, rfl⟩)⟩
    rw [claims?, hx]
  | release lockToken message =>
    obtain ⟨-, hdraft⟩ := of_decide_eq_true hguard
    exact ⟨rfl, fun h => absurd hdraft h, .inr (.inl ⟨rfl, hdraft⟩)⟩
  | promote => exact ⟨rfl, fun _ h => (by cases h), .inl rfl⟩
  | reconcile =>
    refine ⟨rfl, fun h h' => ?_, .inl rfl⟩
    change (if poll.status = .active then PollStatus.closed else poll.status) = .draft at h'
    split at h'
    · cases h'
    · exact h h'
  | renew | bind | keepAmbiguous | markRendered | renderError => exact ⟨rfl, id, .inl rfl⟩

theorem revision_of_update {u : Update} {poll : Poll} :
    (u.data poll).renderRevision = poll.renderRevision := by cases u <;> rfl

variable {x : Event ω} {w : ω} {i : Call}

theorem accepts_none_of_performed (hmac : Hmac η) {e : Op} {r : e.Reply} (hx : performed? x = some (w, i, ⟨e, r⟩))
    (he : ∀ c fate, e ≠ .recordVote c fate) (s : Ballots η) : accepts? hmac s x = none := by
  rw [accepts?, hx]
  cases e with
  | recordVote c fate => exact absurd rfl (he c fate)
  | _ => rfl

omit [DecidableEq η] in
theorem closes_of_performed {e : Op} {r : e.Reply} (hx : performed? x = some (w, i, ⟨e, r⟩))
    (he : ∀ fate, e ≠ .close fate) (s : Ballots η) : closes s x = false := by
  rw [closes, hx]
  cases e with
  | close fate => exact absurd rfl (he fate)
  | _ => rfl

theorem effect_of_vote {c : Callback} {fate : Fate} {r : Except String Outcome} (s : Ballots η)
    (hx : performed? x = some (w, i, ⟨.recordVote c fate, r⟩)) :
    Effect hmac x s (s.vote hmac c fate).1 ∧ Frame x s.poll (s.vote hmac c fate).1.poll := by
  have hcloses := closes_of_performed hx (fun _ h => by cases h) s
  have haccepts : accepts? hmac s x =
      if fate.commits ∧ (s.recordVote hmac c).2.isRecorded then some c else none := by
    rw [accepts?, hx]
  rw [Ballots.vote]
  cases hfate : fate.commits with
  | false =>
    refine ⟨.kept rfl rfl rfl ?_ hcloses, .refl x s.poll⟩
    rw [haccepts, hfate]
    exact if_neg fun h => by cases h.1
  | true =>
    rw [if_pos rfl]
    rcases recordVote_cases hmac s c with ⟨poll, hpoll, hs, hrecorded⟩ | ⟨hcurrent, hs⟩
    · have hnone : accepts? hmac s x = none := by
        rw [haccepts, hrecorded]
        exact if_neg fun h => by cases h.2
      rw [hs]
      rcases hpoll with rfl | rfl
      · exact ⟨.kept rfl rfl rfl hnone hcloses, .refl x s.poll⟩
      · exact ⟨.kept rfl rfl (recover_frame s.poll c).2.2.1 hnone hcloses, frame_of_recover x s.poll c⟩
    · obtain ⟨hcast, hrecorded⟩ := castVote_cases hmac { s with poll := s.poll.recover c } c
      rw [← hs] at hcast hrecorded
      rw [show ({ s with poll := s.poll.recover c } : Ballots η).poll.identitySalt =
        s.poll.identitySalt from (recover_frame s.poll c).1] at hcast
      have hframe := frame_of_recover x s.poll c
      refine ⟨.accepted c hcurrent hcast (by rw [haccepts, hfate, hrecorded]; rfl) hcloses, ?_⟩
      generalize (s.recordVote hmac c).1 = s' at hcast ⊢
      cases hcast with
      | replayed => exact hframe
      | older s' voter t hfound hlast hearlier hpoll => exact hpoll ▸ hframe
      | counted s' existing hrecent hlater hvoters hvotes =>
        rcases hvotes with ⟨-, -, hpoll⟩ | ⟨-, -, hpoll⟩
        · exact hpoll ▸ hframe
        · rw [hpoll]
          exact ⟨hframe.salt, hframe.published, hframe.token⟩

theorem effect_of_close {fate : Fate} {r : Except String Bool} (s : Ballots η)
    (hx : performed? x = some (w, i, ⟨.close fate, r⟩)) :
    Effect hmac x s (s.close fate).1 ∧ Frame x s.poll (s.close fate).1.poll := by
  have hnone : accepts? hmac s x = none := accepts_none_of_performed hmac hx (fun _ _ h => by cases h) s
  have hcloses : closes s x = (fate.commits && s.poll.status == .active) := by rw [closes, hx]
  rw [Ballots.close, Poll.close]
  cases hstatus : s.poll.status with
  | draft =>
    refine ⟨.kept rfl rfl rfl hnone ?_, .refl x s.poll⟩
    rw [hcloses, hstatus, Bool.and_eq_false_iff]
    exact .inr rfl
  | closed =>
    have hopen : closes s x = false := by
      rw [hcloses, hstatus, Bool.and_eq_false_iff]
      exact .inr rfl
    dsimp only
    split <;> exact ⟨.kept rfl rfl rfl hnone hopen, .refl x s.poll⟩
  | active =>
    cases hfate : fate.commits with
    | false =>
      refine ⟨.kept rfl rfl rfl hnone ?_, .refl x s.poll⟩
      rw [hcloses, hfate]
      rfl
    | true =>
      refine ⟨.closed rfl rfl rfl hnone ?_, rfl, fun _ h => (by cases h), .inl rfl⟩
      rw [hcloses, hfate, hstatus]
      rfl

theorem effect_of_reset {now : Nat} {fate : Fate} {r : Except String Unit} (s : Ballots η)
    (hx : performed? x = some (w, i, ⟨.reset now fate, r⟩)) :
    Effect hmac x s (s.reset now fate).1 ∧ Frame x s.poll (s.reset now fate).1.poll := by
  have hnone : accepts? hmac s x = none := accepts_none_of_performed hmac hx (fun _ _ h => by cases h) s
  have hcloses := closes_of_performed hx (fun _ h => by cases h) s
  rw [Ballots.reset, Poll.reset]
  split
  · next hreset =>
    split at hreset
    · exact ⟨.kept rfl rfl rfl hnone hcloses, .refl x s.poll⟩
    · cases hreset
  · next poll hreset =>
    split at hreset
    · cases hreset
    next hguard =>
      obtain rfl := Except.ok.inj hreset
      have hdraft : s.poll.status = .draft := by
        by_contra h
        exact hguard (.inl h)
      dsimp only
      split
      · exact ⟨.kept rfl rfl rfl hnone hcloses, rfl, fun h => absurd hdraft h, .inr (.inl ⟨rfl, hdraft⟩)⟩
      · exact ⟨.kept rfl rfl rfl hnone hcloses, .refl x s.poll⟩

theorem effect_of_performed {e : Op} {s : World η} (hx : performed? x = some (w, i, ⟨e, (e.run hmac s).2⟩)) :
    Effect hmac x s.ballots (e.run hmac s).1.ballots ∧
      Frame x s.ballots.poll (e.run hmac s).1.ballots.poll := by
  have hsame (hs : (e.run hmac s).1.ballots = s.ballots) (hvote : ∀ c fate, e ≠ .recordVote c fate)
      (hclose : ∀ fate, e ≠ .close fate) : Effect hmac x s.ballots (e.run hmac s).1.ballots ∧
        Frame x s.ballots.poll (e.run hmac s).1.ballots.poll := by
    rw [hs]
    exact ⟨.kept rfl rfl rfl (accepts_none_of_performed hmac hx hvote _) (closes_of_performed hx hclose _),
      .refl x _⟩
  cases e with
  | recordVote c fate => exact effect_of_vote s.ballots hx
  | close fate => exact effect_of_close s.ballots hx
  | reset now fate => exact effect_of_reset s.ballots hx
  | update u fate =>
    have hnone := accepts_none_of_performed hmac hx (fun _ _ h => by cases h) s.ballots
    have hcloses := closes_of_performed hx (fun _ h => by cases h) s.ballots
    change Effect hmac x s.ballots (s.ballots.update u fate).1 ∧
      Frame x s.ballots.poll (s.ballots.update u fate).1.poll
    rw [Ballots.update]
    split
    · next hwrites =>
      exact ⟨.kept rfl rfl revision_of_update hnone hcloses, frame_of_update hx hwrites.2⟩
    · exact ⟨.kept rfl rfl rfl hnone hcloses, .refl x _⟩
  | acquireLock token expired =>
    refine hsame ?_ (fun _ _ h => by cases h) (fun _ h => by cases h)
    rw [Op.run]
    split <;> rfl
  | releaseLock token =>
    refine hsame ?_ (fun _ _ h => by cases h) (fun _ h => by cases h)
    change (if _ then _ else s).ballots = s.ballots
    split <;> rfl
  | findPoll | loadVoteCounts | edit | arrive =>
    exact hsame rfl (fun _ _ h => by cases h) (fun _ h => by cases h)

/-! ## The latest callback of a user -/

omit [DecidableEq η] in
theorem event_injective {salt a b : String}
    (h : hmac.buildVoteEventHash salt a = hmac.buildVoteEventHash salt b) : a = b := by
  have he := congrArg String.toList (hmac.injective salt h)
  rw [String.toList_append, String.toList_append] at he
  exact String.toList_inj.mp (List.append_cancel_left he)

/-- No accepted callback of the user is later. -/
structure Latest (accepted : Callback → Prop) (userId : String) (c : Callback) : Prop where
  belongs : accepted c
  user : c.userId = userId
  latest : ∀ c', accepted c' → c'.userId = userId → c'.eventAt ≤ c.eventAt

theorem Latest.other {accepted : Callback → Prop} {userId : String} {c c' : Callback}
    (h : Latest accepted userId c) (hc' : c'.userId = userId → c'.eventAt ≤ c.eventAt) :
    Latest (fun d => accepted d ∨ d = c') userId c where
  belongs := .inl h.belongs
  user := h.user
  latest := by
    rintro d (hd | rfl) huser
    · exact h.latest d hd huser
    · exact hc' huser

/-- The voter and the vote of a user are those of the latest accepted callback. -/
structure Tracks (hmac : Hmac η) (salt : String) (accepted : Callback → Prop) (s : Ballots η)
    (userId : String) : Prop where
  unknown : s.findVoter (hmac.buildIdentityHash salt userId) = none →
    s.optionOf (hmac.buildIdentityHash salt userId) = none ∧ ∀ c, accepted c → c.userId ≠ userId
  known : ∀ voter, s.findVoter (hmac.buildIdentityHash salt userId) = some voter →
    ∃ c, Latest accepted userId c ∧ voter.lastEventAt = some c.eventAt ∧
      s.optionOf (hmac.buildIdentityHash salt userId) = some c.optionId ∧
      ∀ eventHash ∈ voter.recentEventHashes, ∃ c', accepted c' ∧ c'.userId = userId ∧
        eventHash = hmac.buildVoteEventHash salt c'.eventId

theorem mem_appendRecentEventHash {existing : List η} {eventHash a : η}
    (h : a ∈ appendRecentEventHash existing eventHash) : a = eventHash ∨ a ∈ existing := by
  rcases List.mem_cons.mp (List.mem_of_mem_take h) with h | h
  · exact .inl h
  · exact .inr (List.mem_filter.mp h).1

variable {salt userId : String} {accepted : Callback → Prop} {s s' : Ballots η} {c d : Callback}

theorem optionOf_upsert {vote : Vote η} (h : s'.votes = upsert Vote.voter vote s.votes) :
    s'.optionOf vote.voter = some vote.optionId ∧
      ∀ identityHash, vote.voter ≠ identityHash → s'.optionOf identityHash = s.optionOf identityHash := by
  refine ⟨?_, fun identityHash hne => ?_⟩
  · rw [Ballots.optionOf, h, findKey_upsert_self]
    rfl
  · rw [Ballots.optionOf, h, findKey_upsert_of_ne hne]
    rfl

/-- A callback of another user. -/
theorem Tracks.other (hs : Tracks hmac salt accepted s userId) (huser : c.userId ≠ userId)
    (hvoter : s'.findVoter (hmac.buildIdentityHash salt userId) =
      s.findVoter (hmac.buildIdentityHash salt userId))
    (hoption : s'.optionOf (hmac.buildIdentityHash salt userId) =
      s.optionOf (hmac.buildIdentityHash salt userId)) :
    Tracks hmac salt (fun d => accepted d ∨ d = c) s' userId := by
  constructor
  · intro hnone
    rw [hvoter] at hnone
    obtain ⟨ho, hall⟩ := hs.unknown hnone
    refine ⟨hoption.trans ho, ?_⟩
    rintro d (hd | rfl)
    · exact hall d hd
    · exact huser
  · intro voter hfound
    rw [hvoter] at hfound
    obtain ⟨d, hlatest, hlast, ho, hrecent⟩ := hs.known voter hfound
    refine ⟨d, hlatest.other fun h => absurd h huser, hlast, hoption.trans ho, fun eventHash hmem => ?_⟩
    obtain ⟨c', hc', huser', he⟩ := hrecent eventHash hmem
    exact ⟨c', .inl hc', huser', he⟩

/-- The callback writes the voter of its user, whose latest callback is then `d`. -/
theorem tracks_write (hs : ∀ userId, Tracks hmac salt accepted s userId) {voter : Voter η}
    (hkey : voter.identityHash = hmac.buildIdentityHash salt c.userId)
    (hvoters : s'.voters = upsert Voter.identityHash voter s.voters)
    (hothers : ∀ identityHash, hmac.buildIdentityHash salt c.userId ≠ identityHash →
      s'.optionOf identityHash = s.optionOf identityHash)
    (hlatest : Latest (fun d => accepted d ∨ d = c) c.userId d)
    (hlast : voter.lastEventAt = some d.eventAt)
    (hoption : s'.optionOf (hmac.buildIdentityHash salt c.userId) = some d.optionId)
    (hrecent : ∀ eventHash ∈ voter.recentEventHashes, ∃ c', (accepted c' ∨ c' = c) ∧
      c'.userId = c.userId ∧ eventHash = hmac.buildVoteEventHash salt c'.eventId) :
    Tracks hmac salt (fun d => accepted d ∨ d = c) s' userId := by
  by_cases huser : c.userId = userId
  · subst huser
    have hself : s'.findVoter (hmac.buildIdentityHash salt c.userId) = some voter := by
      rw [Ballots.findVoter, hvoters, ← hkey]
      exact findKey_upsert_self voter s.voters
    constructor
    · intro hnone
      rw [hself] at hnone
      cases hnone
    · intro voter' hfound
      obtain rfl := Option.some.inj (hself.symm.trans hfound)
      exact ⟨d, hlatest, hlast, hoption, hrecent⟩
  · have hne : hmac.buildIdentityHash salt c.userId ≠ hmac.buildIdentityHash salt userId :=
      fun h => huser (hmac.injective salt h)
    refine (hs userId).other huser ?_ (hothers _ hne)
    rw [Ballots.findVoter, hvoters]
    exact findKey_upsert_of_ne (hkey ▸ hne) _

/-- An accepted callback. One that was accepted before is known by its event. -/
theorem tracks_of_casts (hs : ∀ userId, Tracks hmac salt accepted s userId)
    (hcast : Casts (hmac.buildIdentityHash salt c.userId) (hmac.buildVoteEventHash salt c.eventId)
      s c s')
    (hid : ∀ c', accepted c' → c'.eventId = c.eventId → c' = c) :
    Tracks hmac salt (fun d => accepted d ∨ d = c) s' userId := by
  have hrecent {existing : List η}
      (hexisting : ∀ eventHash ∈ existing, ∃ c', accepted c' ∧ c'.userId = c.userId ∧
        eventHash = hmac.buildVoteEventHash salt c'.eventId) :
      ∀ eventHash ∈ appendRecentEventHash existing (hmac.buildVoteEventHash salt c.eventId),
        ∃ c', (accepted c' ∨ c' = c) ∧ c'.userId = c.userId ∧
          eventHash = hmac.buildVoteEventHash salt c'.eventId := by
    intro eventHash hmem
    rcases mem_appendRecentEventHash hmem with rfl | hmem
    · exact ⟨c, .inr rfl, rfl, rfl⟩
    · obtain ⟨c', hc', huser, he⟩ := hexisting eventHash hmem
      exact ⟨c', .inl hc', huser, he⟩
  cases hcast with
  | replayed voter hfound hmem =>
    obtain ⟨d, -, -, -, hknown⟩ := (hs c.userId).known voter hfound
    obtain ⟨c', hc', -, he⟩ := hknown _ hmem
    obtain rfl := hid c' hc' (event_injective he.symm)
    have hsame : (fun d => accepted d ∨ d = c') = accepted := by
      funext d
      exact propext ⟨fun h => h.elim id fun h => h ▸ hc', .inl⟩
    rw [hsame]
    exact hs userId
  | older _ voter t hfound hlast hearlier hpoll hvotes hvoters =>
    obtain ⟨d, hlatest, hlast', hoption, hknown⟩ := (hs c.userId).known voter hfound
    obtain rfl := Option.some.inj (hlast.symm.trans hlast')
    have hoptions (identityHash : η) : s'.optionOf identityHash = s.optionOf identityHash := by
      rw [Ballots.optionOf, hvotes]
      rfl
    exact tracks_write hs rfl hvoters (fun _ _ => hoptions _)
      (hlatest.other fun _ => le_of_lt hearlier) rfl ((hoptions _).trans hoption) (hrecent hknown)
  | counted _ existing hexisting hlater hvoters hvotes =>
    have hlatest : Latest (fun d => accepted d ∨ d = c) c.userId c := by
      refine ⟨.inr rfl, rfl, ?_⟩
      rintro d (hd | rfl) huser
      · cases hfound : s.findVoter (hmac.buildIdentityHash salt c.userId) with
        | none => exact absurd huser (((hs c.userId).unknown hfound).2 d hd)
        | some voter =>
          obtain ⟨e, he, hlast, -, -⟩ := (hs c.userId).known voter hfound
          exact (he.latest d hd huser).trans (hlater voter hfound _ hlast)
      · exact le_rfl
    have hknown : ∀ eventHash ∈ existing, ∃ c', accepted c' ∧ c'.userId = c.userId ∧
        eventHash = hmac.buildVoteEventHash salt c'.eventId := by
      intro eventHash hmem
      cases hfound : s.findVoter (hmac.buildIdentityHash salt c.userId) with
      | none =>
        rw [hexisting, hfound] at hmem
        cases hmem
      | some voter =>
        rw [hexisting, hfound] at hmem
        obtain ⟨-, -, -, -, hall⟩ := (hs c.userId).known voter hfound
        exact hall eventHash hmem
    rcases hvotes with ⟨hsame, hvotes, -⟩ | ⟨-, hvotes, -⟩
    · have hoptions (identityHash : η) : s'.optionOf identityHash = s.optionOf identityHash := by
        rw [Ballots.optionOf, hvotes]
        rfl
      exact tracks_write hs rfl hvoters (fun _ _ => hoptions _) hlatest rfl ((hoptions _).trans hsame)
        (hrecent hknown)
    · obtain ⟨hself, hothers⟩ := optionOf_upsert hvotes
      exact tracks_write hs rfl hvoters hothers hlatest rfl hself (hrecent hknown)

end Votes

/-! ## Runs -/

section Runs

variable [DecidableEq ω] [DecidableEq η] (hmac : Hmac η)
  {ok : List (Event ω) → Nat → Move ω Call → Prop} {s₀ : World η} {h : List (Event ω)} {t : Nat}
  {p : Pool ω Call Op Op.Reply String Unit (World η)}

abbrev after (s₀ : World η) (h : List (Event ω)) : Ballots η :=
  (Pool.after (Op.run hmac) Call.program s₀ h).ballots

abbrev PollRun (ok : List (Event ω) → Nat → Move ω Call → Prop) (s₀ : World η) :=
  Run (Pool.step (Op.run hmac) Call.program) ok (Pool.start (ω := ω) (ξ := String) (α := Unit) s₀)

def Accepted (s₀ : World η) (h : List (Event ω)) (c : Callback) : Prop :=
  ∃ h₁ x h₂, h = h₁ ++ x :: h₂ ∧ accepts? hmac (after hmac s₀ h₁) x = some c

def Identified (s₀ : World η) (h : List (Event ω)) : Prop :=
  ∀ c c', Accepted hmac s₀ h c → Accepted hmac s₀ h c' → c.eventId = c'.eventId → c = c'

def tokens (s₀ : World η) (h : List (Event ω)) : List String :=
  s₀.ballots.poll.lockToken.toList ++ h.filterMap claims?

/-- Every publication has a token of its own. -/
structure FreshTokens (s₀ : World η) (h : List (Event ω)) : Prop where
  distinct : ((tokens s₀ h).map fun lockToken => nullableString (some lockToken)).Nodup
  present : ∀ lockToken ∈ tokens s₀ h, nullableString (some lockToken) ≠ none

/-- What holds of the ballots, whatever the order and the number of the deliveries. -/
structure BallotsConverge (s₀ : World η) (h : List (Event ω)) : Prop where
  one : ∀ userId, ((after hmac s₀ h).votes.filter fun vote =>
    vote.voter = hmac.buildIdentityHash s₀.ballots.poll.identitySalt userId).length ≤ 1
  latest : Identified hmac s₀ h →
    (∀ c c', Accepted hmac s₀ h c → Accepted hmac s₀ h c' → c.userId = c'.userId →
      c.eventAt = c'.eventAt → c = c') →
    ∀ userId c, Latest (Accepted hmac s₀ h) userId c → (after hmac s₀ h).optionOf
      (hmac.buildIdentityHash s₀.ballots.poll.identitySalt userId) = some c.optionId
  absent : Identified hmac s₀ h → ∀ userId, (∀ c, Accepted hmac s₀ h c → c.userId ≠ userId) →
    (after hmac s₀ h).optionOf (hmac.buildIdentityHash s₀.ballots.poll.identitySalt userId) = none
  changes : ∀ h₁ x h₂, h = h₁ ++ x :: h₂ →
    (after hmac s₀ (h₁ ++ [x])).votes ≠ (after hmac s₀ h₁).votes →
    ∃ c, accepts? hmac (after hmac s₀ h₁) x = some c
  current : ∀ h₁ x h₂, h = h₁ ++ x :: h₂ → ∀ c, accepts? hmac (after hmac s₀ h₁) x = some c →
    Current (after hmac s₀ (h₁ ++ [x])).poll c
  /-- A publication that was reset or given up. -/
  withdrawn : FreshTokens s₀ h → ∀ h₁ x h₂ lockToken, h = h₁ ++ x :: h₂ →
    (after hmac s₀ h₁).poll.lockToken = some lockToken →
    (after hmac s₀ (h₁ ++ [x])).poll.lockToken = none →
    ∀ c, Accepted hmac s₀ h c → nullableString c.publicationToken ≠ nullableString (some lockToken)
  revision : ∀ h₁ x h₂, h = h₁ ++ x :: h₂ →
    let changes := (∃ userId, (after hmac s₀ (h₁ ++ [x])).optionOf
        (hmac.buildIdentityHash s₀.ballots.poll.identitySalt userId) ≠ (after hmac s₀ h₁).optionOf
          (hmac.buildIdentityHash s₀.ballots.poll.identitySalt userId)) ∨
      closes (after hmac s₀ h₁) x = true
    (changes → (after hmac s₀ (h₁ ++ [x])).poll.renderRevision =
      (after hmac s₀ h₁).poll.renderRevision + 1) ∧
    (¬changes → (after hmac s₀ (h₁ ++ [x])).poll.renderRevision =
      (after hmac s₀ h₁).poll.renderRevision)

/-- What holds of the ballots after a history. -/
structure BallotInv (s₀ : World η) (h : List (Event ω)) (s : Ballots η) : Prop where
  salt : s.poll.identitySalt = s₀.ballots.poll.identitySalt
  nodup : (s.votes.map Vote.voter).Nodup
  tracks : Identified hmac s₀ h → ∀ userId,
    Tracks hmac s₀.ballots.poll.identitySalt (Accepted hmac s₀ h) s userId
  token : ∀ lockToken, s.poll.lockToken = some lockToken → lockToken ∈ tokens s₀ h

variable {hmac} {x : Event ω} {c : Callback}

theorem accepted_snoc : Accepted hmac s₀ (h ++ [x]) c ↔
    Accepted hmac s₀ h c ∨ accepts? hmac (after hmac s₀ h) x = some c := by
  constructor
  · rintro ⟨h₁, y, h₂, he, hy⟩
    rcases List.eq_nil_or_concat h₂ with rfl | ⟨h₂, z, rfl⟩
    · obtain ⟨rfl, hlast⟩ := List.append_inj' he rfl
      obtain rfl := List.singleton_inj.mp hlast
      exact .inr hy
    · refine .inl ⟨h₁, y, h₂, ?_, hy⟩
      rw [List.concat_eq_append, ← List.cons_append, ← List.append_assoc] at he
      exact (List.append_inj' he rfl).1
  · rintro (⟨h₁, y, h₂, rfl, hy⟩ | hx)
    · exact ⟨h₁, y, h₂ ++ [x], by simp, hy⟩
    · exact ⟨h, x, [], rfl, hx⟩

theorem Identified.before (hid : Identified hmac s₀ (h ++ [x])) : Identified hmac s₀ h :=
  fun c c' hc hc' => hid c c' (accepted_snoc.mpr (.inl hc)) (accepted_snoc.mpr (.inl hc'))

theorem accepted_quiet (hx : accepts? hmac (after hmac s₀ h) x = none) :
    Accepted hmac s₀ (h ++ [x]) = Accepted hmac s₀ h := by
  funext c
  refine propext (accepted_snoc.trans (or_iff_left fun hc => ?_))
  rw [hx] at hc
  cases hc

omit [DecidableEq ω] [DecidableEq η] in
theorem tokens_snoc (s₀ : World η) (h : List (Event ω)) (x : Event ω) :
    tokens s₀ (h ++ [x]) = tokens s₀ h ++ (claims? x).toList := by
  rw [tokens, tokens, List.filterMap_append, List.append_assoc]
  cases hx : claims? x <;> simp [hx]

omit [DecidableEq ω] [DecidableEq η] in
theorem Frame.token_mem {poll poll' : Poll} (hx : Frame x poll poll')
    (htoken : ∀ lockToken, poll.lockToken = some lockToken → lockToken ∈ tokens s₀ h) :
    ∀ lockToken, poll'.lockToken = some lockToken → lockToken ∈ tokens s₀ (h ++ [x]) := by
  intro lockToken hlock
  rw [tokens_snoc]
  rcases hx.token with hsame | ⟨hnone, -⟩ | ⟨claimed, hclaims, hnew⟩
  · exact List.mem_append_left _ (htoken lockToken (hsame ▸ hlock))
  · rw [hnone] at hlock
    cases hlock
  · obtain rfl := Option.some.inj (hnew.symm.trans hlock)
    rw [hclaims]
    exact List.mem_append_right _ (List.mem_singleton.mpr rfl)

theorem Tracks.same {salt userId : String} {accepted : Callback → Prop} {s s' : Ballots η}
    (hs : Tracks hmac salt accepted s userId) (hvoters : s'.voters = s.voters)
    (hvotes : s'.votes = s.votes) : Tracks hmac salt accepted s' userId := by
  have hvoter (identityHash : η) : s'.findVoter identityHash = s.findVoter identityHash := by
    rw [Ballots.findVoter, hvoters]
    rfl
  have hoption (identityHash : η) : s'.optionOf identityHash = s.optionOf identityHash := by
    rw [Ballots.optionOf, hvotes]
    rfl
  constructor
  · rw [hvoter, hoption]
    exact hs.unknown
  · intro voter
    rw [hvoter, hoption]
    exact hs.known voter

theorem nodup_of_casts {identityHash eventHash : η} {s s' : Ballots η}
    (hcast : Casts identityHash eventHash s c s') (hs : (s.votes.map Vote.voter).Nodup) :
    (s'.votes.map Vote.voter).Nodup := by
  cases hcast with
  | replayed => exact hs
  | older _ voter t hfound hlast hearlier hpoll hvotes => exact hvotes ▸ hs
  | counted _ existing hexisting hlater hvoters hvotes =>
    rcases hvotes with ⟨-, hvotes, -⟩ | ⟨-, hvotes, -⟩
    · exact hvotes ▸ hs
    · rw [hvotes]
      exact nodup_upsert _ hs

theorem BallotInv.step {s s' : Ballots η} (hi : BallotInv hmac s₀ h s) (hs : s = after hmac s₀ h)
    (hx : Effect hmac x s s') (hf : Frame x s.poll s'.poll) : BallotInv hmac s₀ (h ++ [x]) s' := by
  have hsalt := hf.salt.trans hi.salt
  have htoken := hf.token_mem hi.token
  cases hx with
  | kept hvoters hvotes hrevision haccepted hcloses
  | closed hvoters hvotes hrevision haccepted hcloses =>
    refine ⟨hsalt, hvotes ▸ hi.nodup, fun hid userId => ?_, htoken⟩
    rw [hs] at haccepted
    rw [accepted_quiet haccepted]
    exact (hi.tracks hid.before userId).same hvoters hvotes
  | accepted c hcurrent hcast haccepted hcloses =>
    refine ⟨hsalt, nodup_of_casts hcast hi.nodup, fun hid userId => ?_, htoken⟩
    have hsnoc : Accepted hmac s₀ (h ++ [x]) = fun d => Accepted hmac s₀ h d ∨ d = c := by
      funext d
      refine propext (accepted_snoc.trans (or_congr_right ?_))
      rw [← hs, haccepted, Option.some_inj]
      exact eq_comm
    rw [hsnoc]
    rw [hi.salt] at hcast
    have hbefore (userId : String) : Tracks hmac s₀.ballots.poll.identitySalt (Accepted hmac s₀ h)
        { s with poll := s.poll.recover c } userId := (hi.tracks hid.before userId).same rfl rfl
    refine tracks_of_casts hbefore hcast fun c' hc' he => ?_
    exact hid c' c (by rw [hsnoc]; exact .inl hc') (by rw [hsnoc]; exact .inr rfl) he

theorem run_ballots (hstart : s₀.ballots.voters = [] ∧ s₀.ballots.votes = [])
    (hr : PollRun hmac ok s₀ h t p) : BallotInv hmac s₀ h p.store.ballots := by
  refine (Pool.run_ghost (T := Protocol.any) (fun _ _ => True)
    (fun h s => BallotInv hmac s₀ h s.ballots) (fun _ _ _ _ _ => True)
    (fun i => Prog.follows_any _) ?_ ?_ ?_ ?_ hr fun _ _ _ _ => trivial).1
  · refine ⟨rfl, by rw [hstart.2]; exact List.nodup_nil, fun _ userId => ⟨fun _ => ⟨?_, ?_⟩, ?_⟩, ?_⟩
    · rw [Ballots.optionOf, hstart.2]
      rfl
    · rintro c ⟨h₁, x, h₂, he, -⟩
      simp at he
    · intro voter hfound
      rw [Ballots.findVoter, hstart.1] at hfound
      cases hfound
    · intro lockToken hlock
      rw [tokens, hlock]
      exact List.mem_append_left _ (List.mem_singleton.mpr rfl)
  · intro h x s hx hi
    refine ⟨?_, fun _ _ _ _ => trivial⟩
    have hquiet : accepts? hmac (after hmac s₀ h) x = none := by rw [accepts?, hx]
    refine ⟨hi.salt, hi.nodup, fun hid => ?_, fun lockToken hlock => ?_⟩
    · rw [accepted_quiet hquiet]
      exact hi.tracks hid.before
    · rw [tokens_snoc]
      exact List.mem_append_left _ (hi.token lockToken hlock)
  · exact fun _ _ _ _ _ => trivial
  · rintro h x w i q e s hx hs - hi - - -
    obtain ⟨heffect, hframe⟩ := effect_of_performed hx
    exact ⟨hi.step (congrArg World.ballots hs) heffect hframe, trivial, fun _ _ _ _ _ => trivial⟩

variable {h₁ h₂ : List (Event ω)}

theorem run_effect (hr : PollRun hmac ok s₀ (h₁ ++ x :: h₂) t p) :
    Effect hmac x (after hmac s₀ h₁) (after hmac s₀ (h₁ ++ [x])) ∧
      Frame x (after hmac s₀ h₁).poll (after hmac s₀ (h₁ ++ [x])).poll := by
  obtain ⟨t₁, p₁, hr₁, hstore, hx⟩ := Pool.run_at (T := Protocol.any) (fun _ => Prog.follows_any _) hr
  have hbefore : after hmac s₀ h₁ = p₁.store.ballots := congrArg World.ballots hstore.symm
  rcases hx.performed with ⟨hnone, hsame⟩ | ⟨w, i, q, e, hperformed, -, -, hafter⟩
  · have hkept : after hmac s₀ (h₁ ++ [x]) = p₁.store.ballots := congrArg World.ballots hsame
    rw [hbefore, hkept]
    refine ⟨.kept rfl rfl rfl ?_ ?_, .refl x _⟩
    · rw [accepts?, hnone]
    · rw [closes, hnone]
  · have hwritten : after hmac s₀ (h₁ ++ [x]) = (e.run hmac p₁.store).1.ballots :=
      congrArg World.ballots hafter
    rw [hbefore, hwritten]
    exact effect_of_performed hperformed

theorem published_since (hr : PollRun hmac ok s₀ (h₁ ++ h₂) t p)
    (hpublished : (after hmac s₀ h₁).poll.status ≠ .draft) :
    (after hmac s₀ (h₁ ++ h₂)).poll.status ≠ .draft := by
  induction h₂ using List.reverseRecOn generalizing t p with
  | nil => rwa [List.append_nil]
  | append_singleton h₂ x ih =>
    rw [← List.append_assoc] at hr ⊢
    obtain ⟨t₁, p₁, hr₁, -⟩ := hr.of_append
    exact (run_effect hr).2.published (ih hr₁)

/-- After a token was given up the draft has one that was claimed since. -/
theorem claimed_since (hr : PollRun hmac ok s₀ (h₁ ++ h₂) t p)
    (hnone : (after hmac s₀ h₁).poll.lockToken = none) {lockToken : String}
    (hlock : (after hmac s₀ (h₁ ++ h₂)).poll.lockToken = some lockToken) :
    lockToken ∈ h₂.filterMap claims? := by
  induction h₂ using List.reverseRecOn generalizing t p with
  | nil =>
    rw [List.append_nil, hnone] at hlock
    cases hlock
  | append_singleton h₂ x ih =>
    rw [← List.append_assoc] at hr hlock
    obtain ⟨t₁, p₁, hr₁, -⟩ := hr.of_append
    rw [List.filterMap_append]
    rcases (run_effect hr).2.token with hsame | ⟨hgone, -⟩ | ⟨claimed, hclaims, hnew⟩
    · exact List.mem_append_left _ (ih hr₁ (hsame ▸ hlock))
    · rw [hgone] at hlock
      cases hlock
    · obtain rfl := Option.some.inj (hnew.symm.trans hlock)
      exact List.mem_append_right _ (List.mem_filterMap.mpr ⟨x, List.mem_cons_self, hclaims⟩)

theorem run_current (hr : PollRun hmac ok s₀ (h₁ ++ x :: h₂) t p)
    (hx : accepts? hmac (after hmac s₀ h₁) x = some c) :
    Current (after hmac s₀ (h₁ ++ [x])).poll c := by
  cases (run_effect hr).1 with
  | kept _ _ _ hnone | closed _ _ _ hnone =>
    rw [hnone] at hx
    cases hx
  | accepted c' hcurrent hcast haccepted =>
    obtain rfl := Option.some.inj (haccepted.symm.trans hx)
    generalize after hmac s₀ (h₁ ++ [x]) = s' at hcast ⊢
    cases hcast with
    | replayed => exact hcurrent
    | older _ voter t hfound hlast hearlier hpoll => exact hpoll ▸ hcurrent
    | counted _ existing hexisting hlater hvoters hvotes =>
      rcases hvotes with ⟨-, -, hpoll⟩ | ⟨-, -, hpoll⟩
      · exact hpoll ▸ hcurrent
      · rw [hpoll]
        exact ⟨hcurrent.active, hcurrent.token, hcurrent.message, hcurrent.option⟩

theorem run_withdrawn {lockToken : String}
    (hstart : s₀.ballots.voters = [] ∧ s₀.ballots.votes = [])
    (hr : PollRun hmac ok s₀ (h₁ ++ x :: h₂) t p) (hfresh : FreshTokens s₀ (h₁ ++ x :: h₂))
    (hlock : (after hmac s₀ h₁).poll.lockToken = some lockToken)
    (hgone : (after hmac s₀ (h₁ ++ [x])).poll.lockToken = none)
    (hc : Accepted hmac s₀ (h₁ ++ x :: h₂) c) :
    nullableString c.publicationToken ≠ nullableString (some lockToken) := by
  intro he
  obtain ⟨t₁, p₁, hr₁, -⟩ := hr.of_append
  have htoken : lockToken ∈ tokens s₀ h₁ := by
    refine (run_ballots hstart hr₁).token lockToken ?_
    rw [← Pool.run_after hr₁]
    exact hlock
  have hall : tokens s₀ (h₁ ++ x :: h₂) = tokens s₀ h₁ ++ (x :: h₂).filterMap claims? := by
    rw [tokens, tokens, List.filterMap_append, List.append_assoc]
  have hsome := hfresh.present lockToken (by rw [hall]; exact List.mem_append_left _ htoken)
  have hdraft : (after hmac s₀ h₁).poll.status = .draft := by
    rcases (run_effect hr).2.token with hsame | ⟨-, hdraft⟩ | ⟨claimed, -, hnew⟩
    · rw [hsame, hlock] at hgone
      cases hgone
    · exact hdraft
    · rw [hnew] at hgone
      cases hgone
  obtain ⟨g, y, g', hsplit, hy⟩ := hc
  -- Before the token was given up the poll was a draft, and a draft accepts no callback.
  rcases List.append_eq_append_iff.mp hsplit with ⟨a, rfl, ha⟩ | ⟨a, rfl, ha⟩
  · have hcurrent := run_current (hsplit ▸ hr) hy
    have hextend : h₁ ++ a ++ [y] = (h₁ ++ [x]) ++ ((a ++ [y]).drop 1) := by
      cases a with
      | nil =>
        obtain ⟨rfl, -⟩ := List.cons.inj ha
        simp
      | cons z a =>
        obtain ⟨rfl, -⟩ := List.cons.inj ha
        simp
    rw [hextend] at hcurrent
    cases hlock' : (after hmac s₀ (h₁ ++ [x] ++ (a ++ [y]).drop 1)).poll.lockToken with
    | none =>
      rw [← hcurrent.token, hlock'] at he
      exact hsome he.symm
    | some claimed =>
      rw [hsplit, List.append_cons, hextend] at hr
      obtain ⟨t₂, p₂, hr₂, -⟩ := hr.of_append
      have hclaimed := claimed_since hr₂ hgone hlock'
      have hmem : claimed ∈ (x :: h₂).filterMap claims? := by
        rw [ha]
        refine (List.Sublist.filterMap claims? ?_).subset hclaimed
        refine (List.drop_sublist 1 _).trans ?_
        have happend : a ++ y :: g' = (a ++ [y]) ++ g' := List.append_cons a y g'
        rw [happend]
        exact List.sublist_append_left _ _
      have hdistinct := hfresh.distinct
      rw [hall, List.map_append, List.nodup_append] at hdistinct
      rw [← hcurrent.token, hlock'] at he
      exact hdistinct.2.2 _ (List.mem_map_of_mem htoken) _ (List.mem_map_of_mem hmem) he.symm
  · cases a with
    | nil =>
      rw [List.append_nil] at hdraft hr hgone
      obtain ⟨rfl, -⟩ := List.cons.inj ha
      have hcurrent := run_current hr hy
      rw [← hcurrent.token, hgone] at he
      exact hsome he.symm
    | cons z a =>
      obtain ⟨rfl, -⟩ := List.cons.inj ha
      rw [List.append_cons] at hdraft hr₁
      obtain ⟨t₂, p₂, hr₂, -⟩ := hr₁.of_append
      have hcurrent := run_current hr₂ hy
      exact published_since hr₁ (by rw [hcurrent.active]; decide) hdraft

theorem run_revision
    (hstart : s₀.ballots.voters = [] ∧ s₀.ballots.votes = [])
    (hr : PollRun hmac ok s₀ (h₁ ++ x :: h₂) t p) :
    let changes := (∃ userId, (after hmac s₀ (h₁ ++ [x])).optionOf
        (hmac.buildIdentityHash s₀.ballots.poll.identitySalt userId) ≠ (after hmac s₀ h₁).optionOf
          (hmac.buildIdentityHash s₀.ballots.poll.identitySalt userId)) ∨
      closes (after hmac s₀ h₁) x = true
    (changes → (after hmac s₀ (h₁ ++ [x])).poll.renderRevision =
      (after hmac s₀ h₁).poll.renderRevision + 1) ∧
    (¬changes → (after hmac s₀ (h₁ ++ [x])).poll.renderRevision =
      (after hmac s₀ h₁).poll.renderRevision) := by
  obtain ⟨t₁, p₁, hr₁, -⟩ := hr.of_append
  have hsalt : (after hmac s₀ h₁).poll.identitySalt = s₀.ballots.poll.identitySalt := by
    have hi := run_ballots hstart hr₁
    rw [← Pool.run_after hr₁] at hi
    exact hi.salt
  have hoption {s s' : Ballots η} (hvotes : s'.votes = s.votes) (identityHash : η) :
      s'.optionOf identityHash = s.optionOf identityHash := by
    rw [Ballots.optionOf, hvotes]
    rfl
  intro changes
  -- A step that changes no vote and closes nothing.
  have hquiet (hvotes : (after hmac s₀ (h₁ ++ [x])).votes = (after hmac s₀ h₁).votes)
      (hcloses : closes (after hmac s₀ h₁) x = false)
      (hrevision : (after hmac s₀ (h₁ ++ [x])).poll.renderRevision =
        (after hmac s₀ h₁).poll.renderRevision) :
      (changes → (after hmac s₀ (h₁ ++ [x])).poll.renderRevision =
        (after hmac s₀ h₁).poll.renderRevision + 1) ∧
      (¬changes → (after hmac s₀ (h₁ ++ [x])).poll.renderRevision =
        (after hmac s₀ h₁).poll.renderRevision) := by
    refine ⟨?_, fun _ => hrevision⟩
    rintro (⟨userId, hne⟩ | hclosed)
    · exact absurd (hoption hvotes _) hne
    · rw [hcloses] at hclosed
      cases hclosed
  cases (run_effect hr).1 with
  | kept hvoters hvotes hrevision haccepted hcloses => exact hquiet hvotes hcloses hrevision
  | closed hvoters hvotes hrevision haccepted hcloses =>
    exact ⟨fun _ => hrevision, fun hnot => absurd (.inr hcloses) hnot⟩
  | accepted c hcurrent hcast haccepted hcloses =>
    have hrecovered := (recover_frame (after hmac s₀ h₁).poll c).2.2.1
    generalize hs' : after hmac s₀ (h₁ ++ [x]) = s' at hcast
    rw [hs'] at hquiet
    cases hcast with
    | replayed => exact hquiet rfl hcloses hrecovered
    | older _ voter t hfound hlast hearlier hpoll hvotes =>
      exact hquiet hvotes hcloses (hpoll ▸ hrecovered)
    | counted _ existing hexisting hlater hvoters hvotes =>
      rcases hvotes with ⟨-, hvotes, hpoll⟩ | ⟨hother, hvotes, hpoll⟩
      · exact hquiet hvotes hcloses (hpoll ▸ hrecovered)
      · have hrevision : s'.poll.renderRevision = (after hmac s₀ h₁).poll.renderRevision + 1 := by
          rw [hpoll, ← hrecovered]
        refine ⟨fun _ => hrevision, fun hnot => absurd (.inl ⟨c.userId, ?_⟩) hnot⟩
        rw [hs', ← hsalt]
        have hnew := (optionOf_upsert hvotes).1
        rw [hnew]
        exact hother.symm

theorem ballots_converge (hstart : s₀.ballots.voters = [] ∧ s₀.ballots.votes = [])
    (hr : PollRun hmac ok s₀ h t p) : BallotsConverge hmac s₀ h := by
  have hi := run_ballots hstart hr
  rw [← Pool.run_after hr] at hi
  constructor
  · exact fun userId => length_filter_key_le_one hi.nodup _
  · intro hid htime userId c hlatest
    cases hfound : (after hmac s₀ h).findVoter
        (hmac.buildIdentityHash s₀.ballots.poll.identitySalt userId) with
    | none =>
      exact absurd hlatest.user (((hi.tracks hid userId).unknown hfound).2 c hlatest.belongs)
    | some voter =>
      obtain ⟨d, hd, -, hoption, -⟩ := (hi.tracks hid userId).known voter hfound
      have hsame : d = c := htime d c hd.belongs hlatest.belongs (hd.user.trans hlatest.user.symm)
        (le_antisymm (hlatest.latest d hd.belongs hd.user) (hd.latest c hlatest.belongs hlatest.user))
      exact hsame ▸ hoption
  · intro hid userId habsent
    cases hfound : (after hmac s₀ h).findVoter
        (hmac.buildIdentityHash s₀.ballots.poll.identitySalt userId) with
    | none => exact ((hi.tracks hid userId).unknown hfound).1
    | some voter =>
      obtain ⟨d, hd, -⟩ := (hi.tracks hid userId).known voter hfound
      exact absurd hd.user (habsent d hd.belongs)
  · rintro h₁ x h₂ rfl hchanged
    cases (run_effect hr).1 with
    | kept _ hvotes | closed _ hvotes => exact absurd hvotes hchanged
    | accepted c hcurrent hcast haccepted => exact ⟨c, haccepted⟩
  · rintro h₁ x h₂ rfl c hc
    exact run_current hr hc
  · rintro hfresh h₁ x h₂ lockToken rfl hlock hgone c hc
    exact run_withdrawn hstart hr hfresh hlock hgone hc
  · rintro h₁ x h₂ rfl
    exact run_revision hstart hr

end Runs

/-! ## A claimed draft, and callbacks out of order -/

def sampleHmac : Hmac (String × String) := ⟨Prod.mk, fun _ _ _ h => (Prod.mk.inj h).2⟩

def sampleStart : World (String × String) where
  ballots := {
    poll := {
      chatId := "chat", identitySalt := "salt", options := ["a", "b"]
      publicationBotId := some "bot", lockedAt := some 1, lockToken := some "token" }
    voters := []
    votes := [] }

def sampleCallback (eventId : String) (eventAt : Nat) (optionId : String) : Callback :=
  ⟨optionId, "chat", "mid", some "bot", some "token", eventId, eventAt, "user"⟩

/-- Redis is down, and the vote is recorded without the render lock. -/
def sampleDelivery (c : Callback) : Call :=
  .callback {
    callback := c, hasCallbackId := true, lock := ⟨"lock", false, true, true⟩
    vote := .committed, voteUnserialized := .committed, prepared := .ok .resolved
    answer := .applied, mark := .committed, renderError := .committed
    render := fun _ => ⟨false, .ok .resolved, .applied, .committed, .committed, .committed⟩ }

/-- The later callback is delivered first and recovers the draft, and is delivered again at last. -/
def reorderedRun : List (Event Nat) × Pool Nat Call Op Op.Reply String Unit (World (String × String)) :=
  play (Pool.step (Op.run sampleHmac) Call.program) (Pool.start sampleStart) [
    (1, .call 0 (sampleDelivery (sampleCallback "2" 20 "a"))), (1, .resume 0),
    (2, .call 1 (sampleDelivery (sampleCallback "1" 10 "b"))), (2, .resume 1),
    (3, .call 2 (sampleDelivery (sampleCallback "2" 20 "a"))), (3, .resume 2)]

theorem ballots_converge_reordered :
    BallotsConverge sampleHmac sampleStart reorderedRun.1 ∧
      reorderedRun.2.store.ballots.optionOf ("salt", "user") = some "a" ∧
      reorderedRun.2.store.ballots.poll.status = .active ∧
      reorderedRun.2.store.ballots.poll.renderRevision = 1 := by
  obtain ⟨t, hr⟩ : ∃ t, PollRun sampleHmac (fun _ _ _ => True) sampleStart reorderedRun.1 t
      reorderedRun.2 := run_play (by decide) (accepted_of_forall (fun _ _ _ => trivial) _ _)
  exact ⟨ballots_converge ⟨rfl, rfl⟩ hr, by decide +kernel, by decide +kernel, by decide +kernel⟩

end Maxim.Admin.ManagedPoll
