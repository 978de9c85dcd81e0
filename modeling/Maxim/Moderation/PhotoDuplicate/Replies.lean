import Maxim.Moderation.PhotoDuplicate.Counters
import Maxim.Moderation.PhotoDuplicate.Priors

/-!
# The replies of the photo history

A worker first searches the perceptual history and then runs the observation
script with what it has found; other calls come in between. A late delivery
writes nothing, a repeated one gets the first answer, and a duplicate names a
message that was accepted before.
-/

namespace Maxim.Moderation.PhotoDuplicate

open Maxim.Library

/-! ## The search -/

section Search

-- `matchPhotoAlbums` of an album and a stored one; nothing also when the stored one is not read
variable (sha256 : String → String) (maxItems : Nat)
  (albumDistance : PhotoMatchPreset → String → String → Option Nat)

/-- The stored albums of the range, latest first. -/
def candidates (input : ObservePhotoAlbumInput) (recent : Slot (Table RecentRecord Nat)) :
    List RecentRecord :=
  let cutoffAtMs : Int := input.occurredAtMs - (input.ttlSeconds * 1000 : Nat)
  (((ranked recent).reverse.filter fun e =>
    decide (cutoffAtMs < ((ofLex e).1 : Int) ∧ (ofLex e).1 ≤ input.occurredAtMs)).take maxItems).map
      fun e => (ofLex e).2

/-- The better of the best candidate and the next one. -/
def closer (input : ObservePhotoAlbumInput) (album : String) (best : Option PerceptualMatch)
    (candidate : RecentRecord) : Option PerceptualMatch :=
  let clusterId := (ofLex candidate).1
  let messageId := (ofLex (ofLex candidate).2).1
  let stored := (ofLex (ofLex candidate).2).2
  if messageId = input.messageId then best
  else match albumDistance (input.perceptualPreset.getD .sameImage) album stored with
  | none => best
  | some distance =>
    if best.all fun b => decide (distance < b.distance) then some ⟨clusterId, messageId, distance⟩
    else best

def findPerceptualMatch (input : ObservePhotoAlbumInput) (recent : Slot (Table RecentRecord Nat)) :
    Option PerceptualMatch :=
  input.perceptualAlbum.bind fun album =>
    (candidates maxItems input recent).foldl (closer albumDistance input album) none

inductive Call
  | search (input : ObservePhotoAlbumInput)
  | script (request : Request)

inductive Shown
  | found (perceptualMatch : Option PerceptualMatch)
  | script (reply : Reply)

def callStep (now : Nat) (call : Call) (s : Store) : Store × Shown :=
  match call with
  | .search input =>
    (s.purge now, .found (findPerceptualMatch maxItems albumDistance input
      ((s.purge now).recent (input.keys sha256).recentKey)))
  | .script request =>
    ((step sha256 maxItems now request s).1, .script (step sha256 maxItems now request s).2)

def Offered (h : List (Entry Call Shown)) (call : Call) : Prop :=
  ∀ input found, call = .script (.observe input (some found)) →
    ∃ e ∈ h, e.request = .search input ∧ e.reply = .found (some found)

abbrev PhotoRun : List (Entry Call Shown) → Nat → Store → Prop :=
  Run (callStep sha256 maxItems albumDistance) (fun h _ call => Offered h call) Store.empty

end Search

variable {sha256 : String → String} {maxItems now : Nat}
  {albumDistance : PhotoMatchPreset → String → String → Option Nat}
  {s s' : Store} {input : ObservePhotoAlbumInput} {perceptualMatch : Option PerceptualMatch}

def recordMessage (e : Nat ×ₗ RecentRecord) : String := (ofLex (ofLex (ofLex e).2).2).1

theorem findPerceptualMatch_some {recent : Slot (Table RecentRecord Nat)} {found : PerceptualMatch}
    (hfound : findPerceptualMatch maxItems albumDistance input recent = some found) :
    found.messageId ≠ input.messageId ∧ ∃ e ∈ ranked recent, recordMessage e = found.messageId := by
  obtain ⟨album, -, hfold⟩ := Option.bind_eq_some_iff.mp hfound
  have hcandidates : ∀ c ∈ candidates maxItems input recent,
      ∃ e ∈ ranked recent, recordMessage e = (ofLex (ofLex c).2).1 := by
    intro c hc
    obtain ⟨e, he, rfl⟩ := List.mem_map.mp hc
    have hmem := List.mem_of_mem_filter (List.mem_of_mem_take he)
    exact ⟨e, List.mem_reverse.mp hmem, rfl⟩
  -- each candidate keeps what is known of the best one
  have hkeeps : ∀ (l : List RecentRecord) (best : Option PerceptualMatch),
      (∀ c ∈ l, ∃ e ∈ ranked recent, recordMessage e = (ofLex (ofLex c).2).1) →
      (∀ b, best = some b → b.messageId ≠ input.messageId ∧ ∃ e ∈ ranked recent, recordMessage e = b.messageId) →
      ∀ b, l.foldl (closer albumDistance input album) best = some b →
        b.messageId ≠ input.messageId ∧ ∃ e ∈ ranked recent, recordMessage e = b.messageId := by
    intro l
    induction l with
    | nil => exact fun best _ hbest => hbest
    | cons c l ih =>
      intro best hl hbest
      refine ih _ (fun c' hc' => hl c' (List.mem_cons_of_mem _ hc')) fun b hb => ?_
      rw [closer] at hb
      split at hb
      · exact hbest b hb
      next hother =>
        split at hb
        · exact hbest b hb
        · split at hb
          · rw [Option.some.injEq] at hb
            rw [← hb]
            exact ⟨hother, hl c List.mem_cons_self⟩
          · exact hbest b hb
  exact hkeeps _ none hcandidates (fun b hb => by cases hb) found hfold

/-! ## What an observation does -/

/-- The answers agree on what was found. -/
structure SameAnswer (a b : ObservationReply) : Prop where
  classification : a.classification = b.classification
  clusterId : a.clusterId = b.clusterId
  matchKind : a.matchKind = b.matchKind
  distance : a.distance = b.distance
  previousMessageId : a.previousMessageId = b.previousMessageId

theorem SameAnswer.trans {a b c : ObservationReply} (h : SameAnswer a b) (h' : SameAnswer b c) :
    SameAnswer a c where
  classification := h.classification.trans h'.classification
  clusterId := h.clusterId.trans h'.clusterId
  matchKind := h.matchKind.trans h'.matchKind
  distance := h.distance.trans h'.distance
  previousMessageId := h.previousMessageId.trans h'.previousMessageId

/-- The exact history of an input, without what is too old for it. -/
def keptHistory (sha256 : String → String) (input : ObservePhotoAlbumInput) (s : Store) :
    Slot (Table (String ×ₗ String) Nat) :=
  removeScored (s.exactHistory (input.keys sha256).exactHistoryKey)
    (input.occurredAtMs - (input.ttlSeconds * 1000 : Nat))

/-- The observation is accepted as `found`. -/
structure AcceptedAs (sha256 : String → String) (maxItems : Nat) (input : ObservePhotoAlbumInput)
    (s s' : Store) (reply : ObservationReply) (found : Found) : Prop where
  unseen : content (s.replay (input.keys sha256).replayKey) = none
  latest : ∀ e ∈ ranked (s.exactHistory (input.keys sha256).exactHistoryKey),
    rowTime e ≤ printed input.occurredAtMs
  status : reply.status = 1
  classification : reply.classification = found.classification
  matchKind : reply.matchKind = found.matchKind
  previousMessageId : reply.previousMessageId = found.previousMessageId
  record : ∃ (r : ReplayRecord) (x : Nat), SameAnswer reply r.reply ∧
    s'.replay = put s.replay (input.keys sha256).replayKey (cell r x)
  exactHistory : ∃ x : Nat, s'.exactHistory = put s.exactHistory (input.keys sha256).exactHistoryKey
    (expireAt x (trim maxItems (setField (keptHistory sha256 input s)
      (toLex (found.clusterId, input.messageId)) input.occurredAtMs)))
  recent : ∃ slot, s'.recent = put s.recent (input.keys sha256).recentKey slot ∧
    ∀ e ∈ ranked slot, e ∈ ranked (s.recent (input.keys sha256).recentKey) ∨
      recordMessage e = input.messageId

/-- An observation is answered from its record, comes late, or is accepted. -/
inductive Observed (sha256 : String → String) (maxItems : Nat) (input : ObservePhotoAlbumInput)
    (perceptualMatch : Option PerceptualMatch) (s : Store) : Store → ObservationReply → Prop
  | replayed (r : ReplayRecord) (stored : content (s.replay (input.keys sha256).replayKey) = some r) :
      Observed sha256 maxItems input perceptualMatch s s r.reply
  | late (reply : ObservationReply) (status : reply.status = 3)
      (unseen : content (s.replay (input.keys sha256).replayKey) = none) (e : ExactRow)
      (mem : e ∈ ranked (s.exactHistory (input.keys sha256).exactHistoryKey))
      (newer : printed input.occurredAtMs < rowTime e) :
      Observed sha256 maxItems input perceptualMatch s s reply
  | accepted (s' : Store) (reply : ObservationReply) (h : AcceptedAs sha256 maxItems input s s' reply
      (classify sha256 input perceptualMatch (keptHistory sha256 input s))) :
      Observed sha256 maxItems input perceptualMatch s s' reply

theorem mem_ranked_trim {μ : Type} [LinearOrder μ] {slot : Slot (Table μ Nat)} {e : Nat ×ₗ μ}
    (he : e ∈ ranked (trim maxItems slot)) : e ∈ ranked slot := by
  rw [trim] at he
  split at he
  · exact List.mem_of_mem_drop (mem_ranked_removeLowest.mp he)
  · exact he

theorem observeAlbum_observed (sha256 : String → String) (maxItems now : Nat)
    (input : ObservePhotoAlbumInput) (perceptualMatch : Option PerceptualMatch) (s : Store) :
    Observed sha256 maxItems input perceptualMatch s
      (observeAlbum sha256 maxItems now input perceptualMatch s).1
      (observeAlbum sha256 maxItems now input perceptualMatch s).2 := by
  rw [observeAlbum]
  dsimp only
  cases hrow : content (s.replay (input.keys sha256).replayKey) with
  | some r => exact .replayed r hrow
  | none =>
    dsimp only
    split
    next hnewer =>
      obtain ⟨e, he, hlt⟩ := List.any_eq_true.mp hnewer
      exact .late _ rfl hrow e he (of_decide_eq_true hlt)
    next hnewer =>
      refine .accepted _ _ ⟨hrow, fun e he => ?_, rfl, rfl, rfl, rfl,
        ⟨_, _, ⟨rfl, rfl, rfl, rfl, rfl⟩, rfl⟩, ⟨_, rfl⟩, ⟨_, rfl, fun e he => ?_⟩⟩
      · by_contra hlt
        exact hnewer (List.any_eq_true.mpr ⟨e, he, decide_eq_true (not_le.mp hlt)⟩)
      · cases halbum : input.perceptualAlbum with
        | none =>
          rw [halbum] at he
          exact .inl (mem_ranked_removeScored.mp he).1
        | some album =>
          rw [halbum] at he
          dsimp only at he
          rw [ranked_expireAt] at he
          rcases mem_ranked_setField.mp (mem_ranked_trim he) with rfl | ⟨hmem, -⟩
          · exact .inr rfl
          · exact .inl (mem_ranked_removeScored.mp hmem).1

theorem commitViolation_histories (input : CommitPhotoViolationInput) (order : List String) :
    (commitViolation sha256 maxItems now input order s).1.exactHistory = s.exactHistory ∧
      (commitViolation sha256 maxItems now input order s).1.recent = s.recent := by
  unfold commitViolation
  dsimp only
  split
  · exact ⟨rfl, rfl⟩
  split
  · exact ⟨rfl, rfl⟩
  split
  · exact ⟨rfl, rfl⟩
  split
  · exact ⟨rfl, rfl⟩
  split
  · exact ⟨rfl, rfl⟩
  · exact ⟨rfl, rfl⟩

theorem commitViolation_record (input : CommitPhotoViolationInput) (order : List String) {key : String}
    {r : ReplayRecord}
    (hr : content ((commitViolation sha256 maxItems now input order s).1.replay key) = some r) :
    ∃ r₀, content (s.replay key) = some r₀ ∧ SameAnswer r₀.reply r.reply := by
  have hw := @commitViolation_cases sha256 maxItems now s input order
  revert hw hr
  generalize commitViolation sha256 maxItems now input order s = result
  obtain ⟨s', reply⟩ := result
  rintro hr (_ | _ | ⟨r₀, s', hw⟩)
  · exact ⟨r, hr, ⟨rfl, rfl, rfl, rfl, rfl⟩⟩
  · exact ⟨r, hr, ⟨rfl, rfl, rfl, rfl, rfl⟩⟩
  · dsimp only at hr
    rw [hw.record, put_apply] at hr
    split at hr
    next hkey =>
      rw [content_cell, Option.some.injEq] at hr
      rw [hkey, ← hr]
      exact ⟨r₀, hw.stored, ⟨rfl, rfl, rfl, rfl, rfl⟩⟩
    · exact ⟨r, hr, ⟨rfl, rfl, rfl, rfl, rfl⟩⟩

/-! ## Histories stay led -/

def Full (input : ObservePhotoAlbumInput) : Prop := printed input.occurredAtMs = input.occurredAtMs

instance (input : ObservePhotoAlbumInput) : Decidable (Full input) := inferInstanceAs (Decidable (_ = _))

variable {slot : Slot (Table (String ×ₗ String) Nat)}

theorem Led.purge (hled : Led (ranked slot)) :
    Led (ranked (Library.purge now slot)) := by
  rcases purge_eq_self_or_none now slot with hsame | hnone
  · rwa [hsame]
  · rw [hnone]
    intro r y x htwo
    cases htwo.first

theorem Led.removeScored (hled : Led (ranked slot)) (hi : Int) :
    Led (ranked (Library.removeScored slot hi)) := by
  refine hled.upper (fun e he => (mem_ranked_removeScored.mp he).1) fun e he e' he' hle => ?_
  refine mem_ranked_removeScored.mpr ⟨he', (mem_ranked_removeScored.mp he).2.trans_le ?_⟩
  exact_mod_cast Prod.Lex.monotone_fst_ofLex hle

theorem Led.trim (hled : Led (ranked slot)) :
    Led (ranked (PhotoDuplicate.trim maxItems slot)) := by
  rw [PhotoDuplicate.trim]
  split
  · exact hled.upper (fun e he => List.mem_of_mem_drop (mem_ranked_removeLowest.mp he))
      fun e he e' he' hle => removeLowest_upper he he' hle
  · exact hled

theorem priorRows_kept (hfull : Full input)
    (hlatest : ∀ e ∈ ranked (s.exactHistory (input.keys sha256).exactHistoryKey),
      rowTime e ≤ printed input.occurredAtMs) :
    priorRows input.occurredAtMs (input.occurredAtMs - (input.ttlSeconds * 1000 : Nat))
        (keptHistory sha256 input s) =
      ((ranked (keptHistory sha256 input s)).reverse.take 2).map fun e => ofLex (ofLex e).2 := by
  refine priorRows_of_range hfull fun e he => ?_
  obtain ⟨hmem, hcutoff⟩ := mem_ranked_removeScored.mp he
  have hle := hlatest e hmem
  rw [hfull] at hle
  exact ⟨hcutoff.le, hle⟩

theorem AcceptedAs.led {reply : ObservationReply}
    (h : AcceptedAs sha256 maxItems input s s' reply
      (classify sha256 input perceptualMatch (keptHistory sha256 input s)))
    (hfull : Full input) (hled : ∀ key, Led (ranked (s.exactHistory key))) (key : String) :
    Led (ranked (s'.exactHistory key)) := by
  obtain ⟨x, hexact⟩ := h.exactHistory
  rw [hexact, put_apply]
  split
  next hkey =>
    rw [ranked_expireAt]
    apply Led.trim
    have hkept : Led (ranked (keptHistory sha256 input s)) := (hled _).removeScored _
    have hlast : ∀ e ∈ ranked (keptHistory sha256 input s), rowTime e ≤ input.occurredAtMs := by
      intro e he
      have hle := h.latest e (mem_ranked_removeScored.mp he).1
      rwa [hfull] at hle
    unfold classify
    dsimp only
    rw [priorRows_kept hfull h.latest]
    split
    next p hfind =>
      obtain ⟨r, hprior, rfl⟩ := prior_of_find hfind
      exact hkept.observed_prior hlast hprior
    next hfind =>
      exact led_observed_own (hkept.all_own hfind)
  · exact hled key

theorem led_step (request : Request) (hfull : ∀ input m, request = .observe input m → Full input)
    (hled : ∀ key, Led (ranked (s.exactHistory key))) (key : String) :
    Led (ranked ((step sha256 maxItems now request s).1.exactHistory key)) := by
  have hpurged : ∀ key, Led (ranked ((s.purge now).exactHistory key)) := fun key => (hled key).purge
  cases request with
  | observe input m =>
    have hobserved := observeAlbum_observed sha256 maxItems now input m (s.purge now)
    revert hobserved
    rw [step]
    generalize observeAlbum sha256 maxItems now input m (s.purge now) = result
    obtain ⟨s', reply⟩ := result
    rintro (⟨r, stored⟩ | ⟨reply, status, unseen, e, mem, newer⟩ | ⟨s', reply, haccepted⟩)
    · exact hpurged key
    · exact hpurged key
    · exact haccepted.led (hfull input m rfl) hpurged key
  | commit input order =>
    rw [step]
    dsimp only
    rw [(commitViolation_histories input order).1]
    exact hpurged key

variable {h : List (Entry Call Shown)}

theorem led_run {t : Nat}
    (hr : PhotoRun sha256 maxItems albumDistance h t s)
    (hfull : ∀ e ∈ h, ∀ input m, e.request = .script (.observe input m) → Full input) (key : String) :
    Led (ranked (s.exactHistory key)) := by
  have hkept := (hr.restrict (P := fun call => ∀ input m, call = .script (.observe input m) → Full input)
    hfull).invariant (fun _ _ s => ∀ key, Led (ranked (s.exactHistory key)))
    (fun key r y x htwo => by cases htwo.first) (fun _ _ _ _ hled _ => by exact hled) ?_
  · exact hkept key
  · rintro h t s call hled ⟨-, hcall⟩
    cases call with
    | search input => exact fun key => (hled key).purge
    | script request =>
      exact led_step request (fun input m heq => hcall input m (congrArg Call.script heq)) hled

/-! ## Accepted messages -/

/-- The call is the observation of an input that was accepted with the reply. -/
def Accepts (input : ObservePhotoAlbumInput) (reply : ObservationReply) (e : Entry Call Shown) : Prop :=
  (∃ m, e.request = .script (.observe input m)) ∧ e.reply = .script (.observation reply) ∧
    reply.status = 1

/-- A message was accepted under a key. -/
def AcceptedUnder (keyOf : HistoryKeys → String) (sha256 : String → String) (h : List (Entry Call Shown))
    (key messageId : String) : Prop :=
  ∃ x ∈ h, ∃ input reply, Accepts input reply x ∧ keyOf (input.keys sha256) = key ∧
    input.messageId = messageId

theorem AcceptedUnder.snoc {keyOf : HistoryKeys → String} {h : List (Entry Call Shown)}
    {key messageId : String} (ha : AcceptedUnder keyOf sha256 h key messageId) (e : Entry Call Shown) :
    AcceptedUnder keyOf sha256 (h ++ [e]) key messageId := by
  obtain ⟨x, hx, hrest⟩ := ha
  exact ⟨x, List.mem_append_left _ hx, hrest⟩

/-- The histories hold accepted messages, and a search finds one of another message. -/
structure Known (sha256 : String → String) (h : List (Entry Call Shown)) (s : Store) : Prop where
  exact : ∀ key, ∀ e ∈ ranked (s.exactHistory key),
    AcceptedUnder (·.exactHistoryKey) sha256 h key (rowMessage e)
  recent : ∀ key, ∀ e ∈ ranked (s.recent key),
    AcceptedUnder (·.recentKey) sha256 h key (recordMessage e)
  found : ∀ e ∈ h, ∀ input found, e.request = .search input → e.reply = .found (some found) →
    found.messageId ≠ input.messageId ∧
      AcceptedUnder (·.recentKey) sha256 h (input.keys sha256).recentKey found.messageId

theorem Known.purge (hk : Known sha256 h s) :
    Known sha256 h (s.purge now) where
  exact key e he := hk.exact key e (mem_ranked_purge he)
  recent key e he := hk.recent key e (mem_ranked_purge he)
  found := hk.found

theorem Known.script {e : Entry Call Shown} {request : Request}
    (hk : Known sha256 h s) (hrequest : e.request = .script request)
    (hexact : ∀ key, ∀ x ∈ ranked (s'.exactHistory key), x ∈ ranked (s.exactHistory key) ∨
      AcceptedUnder (·.exactHistoryKey) sha256 [e] key (rowMessage x))
    (hrecent : ∀ key, ∀ x ∈ ranked (s'.recent key), x ∈ ranked (s.recent key) ∨
      AcceptedUnder (·.recentKey) sha256 [e] key (recordMessage x)) :
    Known sha256 (h ++ [e]) s' where
  exact key x hx := by
    rcases hexact key x hx with hold | ⟨y, hy, hnew⟩
    · exact (hk.exact key x hold).snoc e
    · exact ⟨y, List.mem_append_right _ hy, hnew⟩
  recent key x hx := by
    rcases hrecent key x hx with hold | ⟨y, hy, hnew⟩
    · exact (hk.recent key x hold).snoc e
    · exact ⟨y, List.mem_append_right _ hy, hnew⟩
  found x hx input found hsearch hreply := by
    rcases List.mem_append.mp hx with hx | hx
    · obtain ⟨hother, ha⟩ := hk.found x hx input found hsearch hreply
      exact ⟨hother, ha.snoc e⟩
    · rw [List.mem_singleton.mp hx, hrequest] at hsearch
      cases hsearch

theorem AcceptedAs.known {reply : ObservationReply} {found : Found}
    (h : AcceptedAs sha256 maxItems input s s' reply found) {e : Entry Call Shown}
    (hrequest : e.request = .script (.observe input perceptualMatch))
    (hreply : e.reply = .script (.observation reply)) :
    (∀ key, ∀ x ∈ ranked (s'.exactHistory key), x ∈ ranked (s.exactHistory key) ∨
      AcceptedUnder (·.exactHistoryKey) sha256 [e] key (rowMessage x)) ∧
    (∀ key, ∀ x ∈ ranked (s'.recent key), x ∈ ranked (s.recent key) ∨
      AcceptedUnder (·.recentKey) sha256 [e] key (recordMessage x)) := by
  have haccepts : Accepts input reply e := ⟨⟨_, hrequest⟩, hreply, h.status⟩
  constructor
  · intro key x hx
    obtain ⟨lives, hexact⟩ := h.exactHistory
    rw [hexact, put_apply] at hx
    split at hx
    next hkey =>
      rw [ranked_expireAt] at hx
      rcases mem_ranked_setField.mp (mem_ranked_trim hx) with rfl | ⟨hmem, -⟩
      · exact .inr ⟨e, List.mem_singleton_self e, input, reply, haccepts, hkey.symm, rfl⟩
      · rw [hkey]
        exact .inl (mem_ranked_removeScored.mp hmem).1
    · exact .inl hx
  · intro key x hx
    obtain ⟨slot, hrecent, hslot⟩ := h.recent
    rw [hrecent, put_apply] at hx
    split at hx
    next hkey =>
      rcases hslot x hx with hold | hown
      · rw [hkey]
        exact .inl hold
      · exact .inr ⟨e, List.mem_singleton_self e, input, reply, haccepts, hkey.symm, hown.symm⟩
    · exact .inl hx

theorem known_run {t : Nat}
    (hr : PhotoRun sha256 maxItems albumDistance h t s) : Known sha256 h s := by
  refine hr.invariant (fun h _ s => Known sha256 h s)
    ⟨fun _ _ he => absurd he List.not_mem_nil, fun _ _ he => absurd he List.not_mem_nil,
      fun _ he => absurd he List.not_mem_nil⟩
    (fun _ _ _ _ hk _ => by exact hk) ?_
  intro h t s call hk _
  have hpurged : Known sha256 h (s.purge t) := hk.purge
  cases call with
  | search input =>
    refine ⟨fun key x hx => (hpurged.exact key x hx).snoc _,
      fun key x hx => (hpurged.recent key x hx).snoc _, fun x hx input' found hsearch hreply => ?_⟩
    rcases List.mem_append.mp hx with hx | hx
    · obtain ⟨hother, ha⟩ := hk.found x hx input' found hsearch hreply
      exact ⟨hother, ha.snoc _⟩
    · rw [List.mem_singleton.mp hx] at hsearch hreply
      cases hsearch
      have hfound : findPerceptualMatch maxItems albumDistance input
          ((s.purge t).recent (input.keys sha256).recentKey) = some found := Shown.found.inj hreply
      obtain ⟨hother, y, hy, hmessage⟩ := findPerceptualMatch_some hfound
      rw [← hmessage] at hother ⊢
      exact ⟨hother, (hpurged.recent _ y hy).snoc _⟩
  | script request =>
    cases request with
    | observe input m =>
      have hobserved := observeAlbum_observed sha256 maxItems t input m (s.purge t)
      revert hobserved
      rw [callStep, step]
      dsimp only
      generalize observeAlbum sha256 maxItems t input m (s.purge t) = result
      obtain ⟨s', reply⟩ := result
      rintro (⟨r, stored⟩ | ⟨reply, status, unseen, e, mem, newer⟩ | ⟨s', reply, haccepted⟩)
      · exact hpurged.script rfl (fun _ _ hx => .inl hx) (fun _ _ hx => .inl hx)
      · exact hpurged.script rfl (fun _ _ hx => .inl hx) (fun _ _ hx => .inl hx)
      · obtain ⟨hexact, hrecent⟩ := haccepted.known (e := ⟨t, _, _⟩) rfl rfl
        exact hpurged.script rfl hexact hrecent
    | commit input order =>
      obtain ⟨hexact, hrecent⟩ := @commitViolation_histories sha256 maxItems t (s.purge t) input order
      refine hpurged.script rfl (fun key x hx => .inl ?_) (fun key x hx => .inl ?_)
      · rw [callStep, step] at hx
        dsimp only at hx
        rwa [hexact] at hx
      · rw [callStep, step] at hx
        dsimp only at hx
        rwa [hrecent] at hx

/-! ## Answers stay the same -/

/-- The call is an observation that was accepted under the replay key. -/
def Accepted (sha256 : String → String) (replayKey : String) (e : Entry Call Shown) : Prop :=
  ∃ input reply, Accepts input reply e ∧ (input.keys sha256).replayKey = replayKey

/-- The observation was accepted with this answer. -/
def FirstAnswer (sha256 : String → String) (replayKey : String) (answer : ObservationReply)
    (e : Entry Call Shown) : Prop :=
  ∃ input reply, Accepts input reply e ∧ (input.keys sha256).replayKey = replayKey ∧
    SameAnswer reply answer

/-- A record is of the latest observation that was accepted under its key. -/
theorem records_run {t : Nat}
    (hr : PhotoRun sha256 maxItems albumDistance h t s) {key : String} {r : ReplayRecord}
    (hrow : content (s.replay key) = some r) :
    Pending (FirstAnswer sha256 key r.reply) (Accepted sha256 key) h := by
  have hrecords := hr.invariant (fun h _ s => ∀ key r, content (s.replay key) = some r →
    Pending (FirstAnswer sha256 key r.reply) (Accepted sha256 key) h)
    (fun _ _ hrow => by cases hrow) (fun _ _ _ _ hi _ => by exact hi) ?_
  · exact hrecords key r hrow
  intro h t s call hi _ key r hrow
  have hpurged : ∀ key r, content ((s.purge t).replay key) = some r →
      Pending (FirstAnswer sha256 key r.reply) (Accepted sha256 key) h :=
    fun key r hrow => hi key r (content_purge_eq_some hrow)
  cases call with
  | search input =>
    refine (hpurged key r hrow).snoc ?_
    rintro ⟨_, _, ⟨⟨_, hrequest⟩, -⟩, -⟩
    cases hrequest
  | script request =>
    cases request with
    | observe input m =>
      have hobserved := observeAlbum_observed sha256 maxItems t input m (s.purge t)
      revert hobserved hrow
      rw [callStep, step]
      dsimp only
      generalize observeAlbum sha256 maxItems t input m (s.purge t) = result
      obtain ⟨s', reply⟩ := result
      rintro hrow (⟨r', stored⟩ | ⟨reply, status, unseen, e, mem, newer⟩ | ⟨s', reply, haccepted⟩)
      · refine (hpurged key r hrow).snoc ?_
        rintro ⟨_, reply, ⟨-, hreply, hstatus⟩, -⟩
        cases hreply
        cases hstatus
      · refine (hpurged key r hrow).snoc ?_
        rintro ⟨_, reply, ⟨-, hreply, hstatus⟩, -⟩
        cases hreply
        rw [status] at hstatus
        cases hstatus
      · obtain ⟨r', lives, hsame, hreplay⟩ := haccepted.record
        dsimp only at hrow
        rw [hreplay, put_apply] at hrow
        split at hrow
        next hkey =>
          rw [content_cell, Option.some.injEq] at hrow
          subst hrow
          exact pending_snoc.mpr (.inl ⟨input, reply, ⟨⟨_, rfl⟩, rfl, haccepted.status⟩, hkey.symm, hsame⟩)
        next hkey =>
          refine (hpurged key r hrow).snoc ?_
          rintro ⟨_, _, ⟨⟨_, hrequest⟩, -⟩, hkey'⟩
          cases hrequest
          exact hkey hkey'.symm
    | commit input order =>
      obtain ⟨r₀, hstored, hsame⟩ := commitViolation_record input order hrow
      have hpending := (hpurged key r₀ hstored).snoc
        (x := ⟨t, .script (.commit input order), (callStep sha256 maxItems albumDistance t
          (.script (.commit input order)) s).2⟩) (by
          rintro ⟨_, _, ⟨⟨_, hrequest⟩, -⟩, -⟩
          cases hrequest)
      obtain ⟨h₁, x, h₂, heq, ⟨i, reply, haccepts, hkey, hfirst⟩, hlater⟩ := hpending
      exact ⟨h₁, x, h₂, heq, ⟨i, reply, haccepts, hkey, hfirst.trans hsame⟩, hlater⟩

/-! ## The contract -/

/-- What the next observation of a run does. -/
structure StableReplies (sha256 : String → String) (maxItems : Nat)
    (albumDistance : PhotoMatchPreset → String → String → Option Nat) (h : List (Entry Call Shown))
    (now : Nat) (s : Store) (input : ObservePhotoAlbumInput) (perceptualMatch : Option PerceptualMatch) :
    Prop where
  /-- A delivery that is older than an entry of its history changes nothing. -/
  late : ∀ e ∈ ranked ((s.purge now).exactHistory (input.keys sha256).exactHistoryKey),
    input.occurredAtMs < rowTime e →
      (callStep sha256 maxItems albumDistance now (.script (.observe input perceptualMatch)) s).1 = s.purge now
  /-- While its record lives, a message gets the answer it was accepted with. -/
  replayed : content ((s.purge now).replay (input.keys sha256).replayKey) ≠ none → ∃ reply,
    callStep sha256 maxItems albumDistance now (.script (.observe input perceptualMatch)) s =
      (s.purge now, .script (.observation reply)) ∧ reply.status = 2 ∧
    Pending (FirstAnswer sha256 (input.keys sha256).replayKey reply)
      (Accepted sha256 (input.keys sha256).replayKey) h
  /-- The exact history wins over a candidate of the search. -/
  exact : content ((s.purge now).replay (input.keys sha256).replayKey) = none →
    (∀ e ∈ ranked ((s.purge now).exactHistory (input.keys sha256).exactHistoryKey),
      rowTime e ≤ input.occurredAtMs) →
    ∀ e ∈ ranked ((s.purge now).exactHistory (input.keys sha256).exactHistoryKey),
      rowMessage e ≠ input.messageId →
      (input.occurredAtMs : Int) - (input.ttlSeconds * 1000 : Nat) < rowTime e →
      ∃ reply, (callStep sha256 maxItems albumDistance now
          (.script (.observe input perceptualMatch)) s).2 = .script (.observation reply) ∧
        reply.status = 1 ∧ reply.classification = .duplicate ∧ reply.matchKind = some input.exactMatchKind
  /-- A duplicate names another message that was accepted before. -/
  previous : ∀ reply previousMessageId, (callStep sha256 maxItems albumDistance now
      (.script (.observe input perceptualMatch)) s).2 = .script (.observation reply) →
    reply.status = 1 → reply.previousMessageId = some previousMessageId →
      previousMessageId ≠ input.messageId ∧
      (AcceptedUnder (·.exactHistoryKey) sha256 h (input.keys sha256).exactHistoryKey previousMessageId ∨
        AcceptedUnder (·.recentKey) sha256 h (input.keys sha256).recentKey previousMessageId)

section Contract

variable {h : List (Entry Call Shown)} {t : Nat}

theorem classify_exact (perceptualMatch : Option PerceptualMatch)
    (hled : Led (ranked (s.exactHistory (input.keys sha256).exactHistoryKey)))
    (hfull : Full input)
    (hlatest : ∀ e ∈ ranked (s.exactHistory (input.keys sha256).exactHistoryKey),
      rowTime e ≤ printed input.occurredAtMs) {e : ExactRow}
    (he : e ∈ ranked (keptHistory sha256 input s)) (hother : rowMessage e ≠ input.messageId) :
    (classify sha256 input perceptualMatch (keptHistory sha256 input s)).classification = .duplicate ∧
      (classify sha256 input perceptualMatch (keptHistory sha256 input s)).matchKind =
        some input.exactMatchKind := by
  unfold classify
  dsimp only
  rw [priorRows_kept hfull hlatest]
  split
  · exact ⟨rfl, rfl⟩
  next hfind => exact absurd ((hled.removeScored _).all_own hfind e he) hother

theorem classify_previous {previousMessageId : String}
    (hprevious : (classify sha256 input perceptualMatch
      (keptHistory sha256 input s)).previousMessageId = some previousMessageId) :
    (previousMessageId ≠ input.messageId ∧
      ∃ e ∈ ranked (s.exactHistory (input.keys sha256).exactHistoryKey), rowMessage e = previousMessageId) ∨
    ∃ found, perceptualMatch = some found ∧ found.messageId = previousMessageId := by
  unfold classify at hprevious
  dsimp only at hprevious
  split at hprevious
  next p hfind =>
    rw [Option.some.injEq] at hprevious
    have hmem := List.mem_of_find?_eq_some hfind
    have hother := List.find?_some hfind
    obtain ⟨e, he, rfl⟩ := List.mem_map.mp hmem
    have hkept := List.mem_reverse.mp (List.mem_of_mem_filter (List.mem_of_mem_take he))
    refine .inl ⟨?_, e, (mem_ranked_removeScored.mp hkept).1, hprevious⟩
    rw [← hprevious]
    simpa using hother
  · split at hprevious
    next found =>
      rw [Option.some.injEq] at hprevious
      exact .inr ⟨found, rfl, hprevious⟩
    · cases hprevious

end Contract

/-! ## Two observations of one album -/

def albumInput (messageId : String) (occurredAtMs : Nat)
    (occurred : 0 < occurredAtMs ∧ occurredAtMs ≤ MAX_SAFE_INTEGER) : ObservePhotoAlbumInput where
  chatId := "c"
  senderId := "u"
  messageId
  occurredAtMs
  ttlSeconds := 60
  scope := .sameAuthor
  fingerprintVersion := "v"
  albumHash := "a"
  exactMatchKind := .canonicalSha256
  perceptualAlbum := none
  perceptualPreset := none
  authorization := ⟨true, "d", [.canonicalSha256]⟩
  exact := canonicalSha256_ne_pdq
  occurred
  lives := minute_lives

theorem offered_none (h : List (Entry Call Shown)) (input : ObservePhotoAlbumInput) :
    Offered h (.script (.observe input none)) := by
  intro _ _ heq
  cases heq

def observedOnce (input : ObservePhotoAlbumInput) : List (Entry Call Shown) × Store :=
  play (callStep id 250 fun _ _ _ => none) Store.empty [(5, .script (.observe input none))]

theorem observedOnce_run (input : ObservePhotoAlbumInput) : ∃ t,
    PhotoRun id 250 (fun _ _ _ => none) (observedOnce input).1 t (observedOnce input).2 :=
  run_play (List.pairwise_singleton _ _) ⟨offered_none _ input, trivial⟩

end Maxim.Moderation.PhotoDuplicate
