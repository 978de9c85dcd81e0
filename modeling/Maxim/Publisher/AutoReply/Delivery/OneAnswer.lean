import Maxim.Publisher.AutoReply.Delivery.Cooldown

/-!
# One answer to a source message

The fence of a delivery belongs to one worker from the transaction that records
it. The next fence, of any worker, finds it cleared, and only that worker
clears it, after an answer that was a definitive rejection.
-/

namespace Maxim.Publisher.AutoReply.Delivery

open Maxim.Library

variable {κ ω : Type} {semanticKey : SourceIdentity → κ} {s s' : Db κ} {d : LeasedDelivery}

/-! ## What a step shows -/

/-- An attempt is opened: the worker, the delivery, its lock token and `dispatchStartedAt`. -/
def opened? (x : Event κ ω) : Option (ω × Key × String × Nat) :=
  match x.request, x.reply with
  | .resume w, some ⟨_, some ⟨.recordSendFence _ d lockToken _ _, .ok started⟩, _⟩ =>
    some (w, d.key, lockToken, started)
  | _, _ => none

/-- The HTTP send is entered, and what it comes to. -/
def sent? (x : Event κ ω) : Option (ω × Key × SendOutcome) :=
  match x.request, x.reply with
  | .resume w, some ⟨_, some ⟨.send key _, outcome⟩, _⟩ => some (w, key, outcome)
  | _, _ => none

/-- The fence is cleared: the worker, the delivery and the lock token. -/
def cleared? (x : Event κ ω) : Option (ω × Key × String) :=
  match x.request, x.reply with
  | .resume w, some ⟨_, some ⟨.update key (.clearDefinitiveSendFence lockToken), true⟩, _⟩ =>
    some (w, key, lockToken)
  | _, _ => none

def withdrawn? (x : Event κ ω) : Option SourceIdentity :=
  match x.reply with
  | some ⟨_, some ⟨.cancelSource source, _⟩, _⟩ => some source
  | _ => none

/-! ## The holder of a fence -/

def Fenced (key : Key) (started : Nat) (s : Db κ) : Prop :=
  ∃ row, s.deliveries key = some row ∧ row.dispatchStartedAt = some started

/-- The delivery that a call has fenced. -/
def FenceState.key? : FenceState → Option Key
  | .idle => none
  | .recorded key _ => some key
  | .answered key _ => some key

/-- The fence is set, and no other call but that of the worker has fenced the delivery. -/
structure Held [DecidableEq ω] (key : Key) (started : Nat) (w : ω) (i : Call κ) (f : FenceState)
    (h : List (Event κ ω)) (s : Db κ) : Prop where
  fenced : Fenced key started s
  only : ∀ w' i' q, worker.phase h w' = some (i', q) → q.fence.key? = some key →
    w' = w ∧ i' = i ∧ q.fence = f

theorem fenced_update {key k : Key} {started : Nat} {u : Update} (hs : Fenced key started s) :
    Fenced key started (s.update k u).1 ∨ k = key ∧ u.clears = true ∧ (s.update k u).2 = true := by
  obtain ⟨row, hrow, hstarted⟩ := hs
  rcases s.update_cases k u with h | ⟨row', hrow', hguard, h⟩
  · exact .inl ⟨row, by rw [h, hrow], hstarted⟩
  · by_cases hk : k = key
    · subst hk
      obtain rfl := Option.some.inj (hrow.symm.trans hrow')
      by_cases hu : u.clears = true
      · exact .inr ⟨rfl, hu, by rw [h]⟩
      · refine .inl ⟨u.data row, by rw [h]; exact Function.update_self .., ?_⟩
        cases u <;> first | exact hstarted | exact absurd rfl hu
    · exact .inl ⟨row, by rw [h]; exact (Function.update_of_ne (Ne.symm hk) ..).trans hrow, hstarted⟩

theorem fenced_create {key : Key} {started : Nat} (new : NewDelivery)
    (hs : Fenced key started s) : Fenced key started (s.create new) := by
  obtain ⟨row, hrow, hstarted⟩ := hs
  refine ⟨row, ?_, hstarted⟩
  rw [Db.create]
  split
  · exact hrow
  · next hnone =>
    have hne : key ≠ new.key := fun he => absurd (hnone.symm.trans (he ▸ hrow)) (by simp)
    exact (Function.update_of_ne hne ..).trans hrow

theorem fenced_recordSendFence {key : Key} {started : Nat} {cfg : Config} {lockToken : String}
    {ready : Bool} {e : Elapsed} {r : Except FenceError Nat} (hs : Fenced key started s)
    (hd : Known s d) (hversion : d.rule.version = d.matchedRuleVersion)
    (h : recordSendFence semanticKey cfg d lockToken ready e s = (s', r)) :
    Fenced key started s' ∧ ∀ started', r = .ok started' → d.key ≠ key := by
  obtain ⟨row, hrow, hstarted⟩ := hs
  cases r with
  | ok started' =>
    obtain ⟨row', hrow', hleased, hset⟩ := (recordSendFence_ok hd hversion h).row
    have hne : d.key ≠ key := by
      rintro rfl
      obtain rfl := Option.some.inj (hrow.symm.trans hrow')
      rw [hleased.unfenced] at hstarted
      cases hstarted
    exact ⟨⟨row, by rw [hset, Function.update_of_ne (Ne.symm hne), hrow], hstarted⟩, fun _ _ => hne⟩
  | error z =>
    rw [(recordSendFence_error hd hversion h).1]
    exact ⟨⟨row, hrow, hstarted⟩, fun _ h => by cases h⟩

/-! ## Steps -/

section Steps

variable [DecidableEq κ] [DecidableEq ω] {h : List (Event κ ω)} {x : Event κ ω} {key : Key}
  {started : Nat} {w : ω} {f : FenceState}

/-- The operation clears the fence of the delivery. -/
inductive Clears (key : Key) : (e : Op κ) → e.Reply → Prop
  | mk (lockToken : String) : Clears key (.update key (.clearDefinitiveSendFence lockToken)) true

/-- The operation enters the HTTP send of the delivery. -/
inductive Sends (key : Key) : (e : Op κ) → e.Reply → Prop
  | mk (given outcome : SendOutcome) : Sends key (.send key given) outcome

omit [DecidableEq κ] [DecidableEq ω] in
theorem next_update (q : Progress) (k : Key) (u : Update) (r : (Op.update k u : Op κ).Reply) :
    (worker.next q (.update k u) r).fence = q.fence ∨
      (worker.next q (.update k u) r).fence = .idle := by
  cases u <;> cases r <;> first | exact .inl rfl | exact .inr rfl

/-- An operation that meets a set fence leaves it, unless it clears it; and a call that comes to the
fence by an operation that does not send for it had come to it before. -/
theorem fenced_run {i : Call κ} {q : Progress} {e : Op κ} {r : e.Reply} (hs : Fenced key started s)
    (hknown : ∀ d, q.loaded = some d → Known s d) (hmay : worker.may i q e)
    (hsem : e.run semanticKey s = (s', r)) :
    Clears key e r ∨ Fenced key started s' ∧ (Sends key e r ∨
      ((worker.next q e r).fence.key? = some key → (worker.next q e r).fence = q.fence)) := by
  have hrest (he : s'.deliveries = s.deliveries) : Fenced key started s' := by
    obtain ⟨row, hrow, hstarted⟩ := hs
    exact ⟨row, he ▸ hrow, hstarted⟩
  cases e with
  | update k u =>
    rcases fenced_update (k := k) (u := u) hs with hfenced | ⟨rfl, hclears, htrue⟩
    · refine .inr ⟨(Prod.mk.inj hsem).1 ▸ hfenced, .inr fun hkey => ?_⟩
      rcases next_update q k u r with hsame | hidle
      · exact hsame
      · rw [hidle] at hkey
        cases hkey
    · refine .inl ?_
      obtain rfl : true = r := htrue.symm.trans (Prod.mk.inj hsem).2
      cases u with
      | clearDefinitiveSendFence lockToken => exact .mk lockToken
      | _ => cases hclears
  | recordSendFence cfg d lockToken ready e =>
    obtain ⟨-, hloaded, hepoch, -⟩ := hmay
    obtain ⟨hfenced, hother⟩ := fenced_recordSendFence hs (hknown d hloaded)
      (LeasedDelivery.currentEpoch_version hepoch) hsem
    refine .inr ⟨hfenced, .inr fun hkey => ?_⟩
    cases r with
    | ok started' => exact absurd (Option.some.inj hkey) (hother started' rfl)
    | error z => rfl
  | send k given =>
    refine .inr ⟨hrest (by rw [← (Prod.mk.inj hsem).1]), ?_⟩
    by_cases hk : k = key
    · subst hk
      exact .inl (.mk given r)
    · exact .inr fun hkey => absurd (Option.some.inj hkey) hk
  | create new =>
    refine .inr ⟨?_, .inr fun _ => rfl⟩
    rw [← (Prod.mk.inj hsem).1]
    exact fenced_create new hs
  | load k lockToken =>
    exact .inr ⟨hrest (by rw [← (Prod.mk.inj hsem).1]), .inr fun _ => by cases r <;> rfl⟩
  | admitSource source =>
    refine .inr ⟨hrest ?_, .inr fun _ => rfl⟩
    rw [Op.run] at hsem
    split at hsem <;> rw [← (Prod.mk.inj hsem).1]
  | _ => exact .inr ⟨hrest (by rw [← (Prod.mk.inj hsem).1]), .inr fun _ => rfl⟩

variable {i : Call κ}

/-- What a step makes of a fence that is held: it is still held, or its worker enters the HTTP send,
or its worker clears it after a definitive rejection. -/
inductive HeldStep (key : Key) (started : Nat) (w : ω) (i : Call κ) (f : FenceState)
    (h : List (Event κ ω)) (s' : Db κ) (x : Event κ ω) : Prop
  | held (still : Held key started w i f (h ++ [x]) s')
  | sends (outcome : SendOutcome) (waits : f = .recorded key started)
    (shown : sent? x = some (w, key, outcome))
    (still : Held key started w i (.answered key outcome) (h ++ [x]) s')
  | clears (outcome : SendOutcome) (lockToken : String) (answered : f = .answered key outcome)
    (definitive : outcome.definitiveNonDelivery = true) (token : i.token? = some lockToken)
    (shown : cleared? x = some (w, key, lockToken))
    (gone : ∀ w' i' q, worker.phase (h ++ [x]) w' = some (i', q) → q.fence.key? ≠ some key)

omit [DecidableEq κ] in
theorem Held.send (hh : Held key started w i f h s) {q : Progress} {given outcome : SendOutcome}
    {result : Option (Except ServiceError Result)} (hrequest : x.request = .resume w)
    (hshown : x.reply = some ⟨i, some ⟨.send key given, outcome⟩, result⟩)
    (hq : worker.phase h w = some (i, q)) :
    Held key started w i (.answered key outcome) (h ++ [x]) s := by
  refine ⟨hh.fenced, fun w' i' q' hq' hkey => ?_⟩
  rcases Protocol.phase_performs hrequest hshown hq hq' with ⟨rfl, rfl, rfl⟩ | ⟨hne, hq'⟩
  · exact ⟨rfl, rfl, rfl⟩
  · exact absurd (hh.only w' i' q' hq' hkey).1 hne

theorem Held.step (hh : Held key started w i f h s) (hknown : KnownBy h s)
    (hf : ∀ started', f = .recorded key started' → started' = started)
    (hx : Pool.Allowed (Op.run semanticKey) worker h s s' x) :
    HeldStep key started w i f h s' x := by
  cases hx with
  | idle hshown hstore =>
    subst hstore
    exact .held ⟨hh.fenced, fun w' i' q hq =>
      hh.only w' i' q (Protocol.phase_idle hshown w' ▸ hq)⟩
  | starts w₁ i₁ result hrequest hshown hstore =>
    subst hstore
    refine .held ⟨hh.fenced, fun w' i' q hq hkey => ?_⟩
    rcases Protocol.phase_starts hrequest hshown hq with ⟨-, -, rfl⟩ | ⟨-, hq⟩
    · cases hkey
    · exact hh.only w' i' q hq hkey
  | performs w₁ i₁ q e r result hrequest hshown hq hmay hsem =>
    have hafter {w' : ω} {i' : Call κ} {q' : Progress}
        (hq' : worker.phase (h ++ [x]) w' = some (i', q')) :=
      Protocol.phase_performs hrequest hshown hq hq'
    rcases fenced_run hh.fenced (hknown w₁ i₁ q hq) hmay hsem with hclears | ⟨hfenced, hsends | hsame⟩
    · obtain ⟨lockToken⟩ := hclears
      obtain ⟨htoken, outcome, hanswered, hdefinitive⟩ := hmay
      obtain ⟨rfl, rfl, rfl⟩ := hh.only w₁ i₁ q hq (by rw [hanswered]; rfl)
      refine .clears outcome lockToken hanswered hdefinitive htoken
        (by rw [cleared?, hrequest, hshown]) fun w' i' q' hq' hkey => ?_
      rcases hafter hq' with ⟨-, -, rfl⟩ | ⟨hne, hq'⟩
      · cases hkey
      · exact hne (hh.only w' i' q' hq' hkey).1
    · obtain ⟨given, outcome⟩ := hsends
      obtain ⟨started', hrecorded⟩ := hmay
      obtain ⟨rfl, rfl, rfl⟩ := hh.only w₁ i₁ q hq (by rw [hrecorded]; rfl)
      obtain rfl := hf started' hrecorded
      refine .sends outcome hrecorded (by rw [sent?, hrequest, hshown]) ?_
      rw [← (Prod.mk.inj hsem).1]
      exact hh.send hrequest hshown hq
    · refine .held ⟨hfenced, fun w' i' q' hq' hkey => ?_⟩
      rcases hafter hq' with ⟨rfl, rfl, rfl⟩ | ⟨-, hq'⟩
      · have hback := hsame hkey
        rw [hback] at hkey ⊢
        exact hh.only w' i' q hq hkey
      · exact hh.only w' i' q' hq' hkey

/-- The operation records a fence of the delivery. -/
inductive Opens (key : Key) (started : Nat) : (e : Op κ) → e.Reply → Prop
  | mk (cfg : Config) (d : LeasedDelivery) (lockToken : String) (ready : Bool) (e : Elapsed)
    (hkey : d.key = key) : Opens key started (.recordSendFence cfg d lockToken ready e) (.ok started)

omit [DecidableEq κ] [DecidableEq ω] in
theorem next_opens {q : Progress} {e : Op κ} {r : e.Reply} (hmay : worker.may i q e)
    (hkey : (worker.next q e r).fence.key? = some key) : q.fence.key? = some key ∨
      ∃ started, Opens key started e r ∧ (worker.next q e r).fence = .recorded key started := by
  cases e with
  | update k u =>
    rcases next_update q k u r with hsame | hidle
    · exact .inl (hsame ▸ hkey)
    · rw [hidle] at hkey
      cases hkey
  | recordSendFence cfg d lockToken ready e =>
    cases r with
    | ok started =>
      obtain rfl := Option.some.inj hkey
      exact .inr ⟨started, .mk cfg d lockToken ready e rfl, rfl⟩
    | error z => exact .inl hkey
  | send k given =>
    obtain ⟨started, hrecorded⟩ := hmay
    exact .inl (hrecorded ▸ hkey)
  | load k lockToken => exact .inl (by cases r <;> exact hkey)
  | _ => exact .inl hkey

omit [DecidableEq κ] [DecidableEq ω] in
theorem next_recorded {q : Progress} {e : Op κ} {r : e.Reply} (hmay : worker.may i q e)
    (hf : (worker.next q e r).fence = .recorded key started) : Opens key started e r := by
  have hwaits (hidle : q.fence.waits = false) (hsame : (worker.next q e r).fence = q.fence) :
      Opens key started e r := by
    rw [← hsame, hf] at hidle
    cases hidle
  cases e with
  | update k u =>
    rcases next_update q k u r with hsame | hidle
    · refine hwaits ?_ hsame
      cases u with
      | clearDefinitiveSendFence lockToken =>
        obtain ⟨-, outcome, hanswered, -⟩ := hmay
        rw [hanswered]
        rfl
      | _ => exact hmay
    · rw [hidle] at hf
      cases hf
  | recordSendFence cfg d lockToken ready e =>
    cases r with
    | ok started' =>
      obtain ⟨rfl, rfl⟩ := FenceState.recorded.inj hf
      exact .mk cfg d lockToken ready e rfl
    | error z => exact hwaits (by rw [hmay.2.2.2]; rfl) rfl
  | send k given => cases hf
  | load k lockToken => exact hwaits hmay (by cases r <;> rfl)
  | _ => exact hwaits hmay rfl

/-- Every fence that a call has come to is held by it. -/
def Holders (h : List (Event κ ω)) (s : Db κ) : Prop :=
  ∀ w i q key, worker.phase h w = some (i, q) → q.fence.key? = some key →
    ∃ started, Held key started w i q.fence h s ∧
      ∀ started', q.fence = .recorded key started' → started' = started

theorem Holders.opens (hh : Holders h s) (hknown : KnownBy h s) {q : Progress} {e : Op κ}
    {r : e.Reply} {result : Option (Except ServiceError Result)} (hrequest : x.request = .resume w)
    (hshown : x.reply = some ⟨i, some ⟨e, r⟩, result⟩) (hq : worker.phase h w = some (i, q))
    (hmay : worker.may i q e) (hsem : e.run semanticKey s = (s', r)) (hopens : Opens key started e r) :
    Held key started w i (.recorded key started) (h ++ [x]) s' := by
  obtain ⟨cfg, d, lockToken, ready, e, rfl⟩ := hopens
  obtain ⟨-, hloaded, hepoch, -⟩ := hmay
  obtain ⟨row, hrow, hleased, hset⟩ := (recordSendFence_ok (hknown w i q hq d hloaded)
    (LeasedDelivery.currentEpoch_version hepoch) hsem).row
  refine ⟨⟨_, by rw [hset, Function.update_self], rfl⟩, fun w' i' q' hq' hkey => ?_⟩
  rcases Protocol.phase_performs hrequest hshown hq hq' with ⟨rfl, rfl, rfl⟩ | ⟨-, hq'⟩
  · exact ⟨rfl, rfl, rfl⟩
  · obtain ⟨started', hheld, -⟩ := hh w' i' q' d.key hq' hkey
    obtain ⟨row', hrow', hstarted⟩ := hheld.fenced
    obtain rfl := Option.some.inj (hrow.symm.trans hrow')
    rw [hleased.unfenced] at hstarted
    cases hstarted

theorem Holders.step (hh : Holders h s) (hknown : KnownBy h s)
    (hx : Pool.Allowed (Op.run semanticKey) worker h s s' x) : Holders (h ++ [x]) s' := by
  intro w' i' q' key hq' hkey
  by_cases hbefore : ∃ w i q, worker.phase h w = some (i, q) ∧ q.fence.key? = some key
  · obtain ⟨w, i, q, hq, hon⟩ := hbefore
    obtain ⟨started, hheld, hstarted⟩ := hh w i q key hq hon
    cases hheld.step hknown hstarted hx with
    | held hstill =>
      obtain ⟨rfl, rfl, hf⟩ := hstill.only w' i' q' hq' hkey
      exact ⟨started, hf ▸ hstill, hf ▸ hstarted⟩
    | sends outcome hwaits hsent hstill =>
      obtain ⟨rfl, rfl, hf⟩ := hstill.only w' i' q' hq' hkey
      exact ⟨started, hf ▸ hstill, fun started' h => by rw [hf] at h; cases h⟩
    | clears outcome lockToken hanswered hdefinitive htoken hcleared hgone =>
      exact absurd hkey (hgone w' i' q' hq')
  · cases hx with
    | idle hshown hstore =>
      exact absurd ⟨w', i', q', Protocol.phase_idle hshown w' ▸ hq', hkey⟩ hbefore
    | starts w₁ i₁ result hrequest hshown hstore =>
      rcases Protocol.phase_starts hrequest hshown hq' with ⟨-, -, rfl⟩ | ⟨-, hq'⟩
      · cases hkey
      · exact absurd ⟨w', i', q', hq', hkey⟩ hbefore
    | performs w₁ i₁ q e r result hrequest hshown hq hmay hsem =>
      rcases Protocol.phase_performs hrequest hshown hq hq' with ⟨rfl, rfl, rfl⟩ | ⟨-, hq'⟩
      · rcases next_opens hmay hkey with hon | ⟨started, hopens, hf⟩
        · exact absurd ⟨w', i', q, hq, hon⟩ hbefore
        · refine ⟨started, ?_, fun started' h => ?_⟩
          · rw [hf]
            exact hh.opens hknown hrequest hshown hq hmay hsem hopens
          · exact (FenceState.recorded.inj (h.symm.trans hf)).2
      · exact absurd ⟨w', i', q', hq', hkey⟩ hbefore

end Steps

/-! ## Runs -/

section Runs

variable [DecidableEq κ] [DecidableEq ω] {s₀ : Db κ}
  {ok : List (Event κ ω) → Nat → Move ω (Call κ) → Prop} {h : List (Event κ ω)} {x : Event κ ω}
  {t : Nat} {p : Pool ω (Call κ) (Op κ) Op.Reply ServiceError Result (Db κ)} {key : Key}
  {started : Nat} {w : ω} {i : Call κ} {f : FenceState}

theorem run_step (hs₀ : Keyed s₀) (hr : DeliveryRun semanticKey ok s₀ (h ++ [x]) t p) :
    ∃ t₁ p₁, DeliveryRun semanticKey ok s₀ h t₁ p₁ ∧
      KnownBy h (tablesAfter semanticKey s₀ h) ∧
      Pool.Allowed (Op.run semanticKey) worker h (tablesAfter semanticKey s₀ h)
        (tablesAfter semanticKey s₀ (h ++ [x])) x := by
  obtain ⟨t₁, p₁, hr₁, -, hx⟩ := Pool.run_allowed program_follows hr
  refine ⟨t₁, p₁, hr₁, ?_, ?_⟩
  · rw [tablesAfter, hr₁.replay_eq]
    exact (run_known hs₀ hr₁).2
  · rw [tablesAfter, tablesAfter, hr₁.replay_eq, hr.replay_eq]
    exact hx

theorem run_holders (hs₀ : Keyed s₀) (hr : DeliveryRun semanticKey ok s₀ h t p) :
    Holders h (tablesAfter semanticKey s₀ h) := by
  induction h using List.reverseRecOn generalizing t p with
  | nil => exact fun w i q key hq => by cases hq
  | append_singleton h x ih =>
    obtain ⟨t₁, p₁, hr₁, hknown, hx⟩ := run_step hs₀ hr
    exact (ih hr₁).step hknown hx

theorem run_opened {lockToken : String} (hs₀ : Keyed s₀)
    (hr : DeliveryRun semanticKey ok s₀ (h ++ [x]) t p)
    (hx : opened? x = some (w, key, lockToken, started)) : ∃ i row, i.token? = some lockToken ∧
      (tablesAfter semanticKey s₀ h).deliveries key = some row ∧ row.Leased lockToken ∧
      (tablesAfter semanticKey s₀ h).fences (semanticKey row.source) = some .ready ∧
      Held key started w i (.recorded key started) (h ++ [x])
        (tablesAfter semanticKey s₀ (h ++ [x])) := by
  obtain ⟨t₁, p₁, hr₁, hknown, hallowed⟩ := run_step hs₀ hr
  cases hallowed with
  | idle hshown hstore => simp [opened?, hshown] at hx
  | starts w i result hrequest hshown hstore => simp [opened?, hrequest] at hx
  | performs w₁ i q e r result hrequest hshown hq hmay hsem =>
    rw [opened?, hrequest, hshown] at hx
    cases e with
    | recordSendFence cfg d lockToken' ready e =>
      cases r with
      | ok started' =>
        simp only [Option.some.injEq, Prod.mk.injEq] at hx
        obtain ⟨rfl, rfl, rfl, rfl⟩ := hx
        have hheld := (run_holders hs₀ hr₁).opens hknown hrequest hshown hq hmay hsem
          (.mk cfg d lockToken' ready e rfl)
        obtain ⟨htoken, hloaded, hepoch, -⟩ := hmay
        have hd := hknown w₁ i q hq d hloaded
        have hrecords := recordSendFence_ok hd (LeasedDelivery.currentEpoch_version hepoch) hsem
        obtain ⟨row, hrow, hleased, -⟩ := hrecords.row
        refine ⟨i, row, htoken, hrow, hleased, ?_, hheld⟩
        obtain ⟨row', hrow', hsame⟩ := hd.row
        obtain rfl := Option.some.inj (hrow.symm.trans hrow')
        rw [show row.source = d.source from congrArg NewDelivery.source hsame]
        exact hrecords.admitted
      | error z => cases hx
    | _ => cases hx

theorem run_sent {outcome : SendOutcome} (hs₀ : Keyed s₀)
    (hr : DeliveryRun semanticKey ok s₀ (h ++ [x]) t p) (hx : sent? x = some (w, key, outcome)) :
    ∃ i q started, worker.phase h w = some (i, q) ∧ q.fence = .recorded key started ∧
      Held key started w i q.fence h (tablesAfter semanticKey s₀ h) ∧
      Held key started w i (.answered key outcome) (h ++ [x])
        (tablesAfter semanticKey s₀ (h ++ [x])) := by
  obtain ⟨t₁, p₁, hr₁, hknown, hallowed⟩ := run_step hs₀ hr
  cases hallowed with
  | idle hshown hstore => simp [sent?, hshown] at hx
  | starts w i result hrequest hshown hstore => simp [sent?, hrequest] at hx
  | performs w₁ i q e r result hrequest hshown hq hmay hsem =>
    rw [sent?, hrequest, hshown] at hx
    cases e with
    | send k given =>
      simp only [Option.some.injEq, Prod.mk.injEq] at hx
      obtain ⟨rfl, rfl, rfl⟩ := hx
      obtain ⟨started', hrecorded⟩ := hmay
      obtain ⟨started, hheld, hstarted⟩ :=
        run_holders hs₀ hr₁ _ i q _ hq (by rw [hrecorded]; rfl)
      obtain rfl := hstarted started' hrecorded
      refine ⟨i, q, started', hq, hrecorded, hheld, ?_⟩
      rw [← (Prod.mk.inj hsem).1]
      exact hheld.send hrequest hshown hq
    | _ => cases hx

theorem run_answered {outcome : SendOutcome} {pre post : List (Event κ ω)} (hs₀ : Keyed s₀)
    (hheld : Held key started w i (.answered key outcome) pre (tablesAfter semanticKey s₀ pre))
    (hr : DeliveryRun semanticKey ok s₀ (pre ++ post) t p) :
    Held key started w i (.answered key outcome) (pre ++ post)
        (tablesAfter semanticKey s₀ (pre ++ post)) ∨
      outcome.definitiveNonDelivery = true ∧ ∃ a c b lockToken, post = a ++ c :: b ∧
        i.token? = some lockToken ∧ cleared? c = some (w, key, lockToken) := by
  induction post using List.reverseRecOn generalizing t p with
  | nil => exact .inl ((List.append_nil pre).symm ▸ hheld)
  | append_singleton post x ih =>
    rw [← List.append_assoc] at hr ⊢
    obtain ⟨t₁, p₁, hr₁, hknown, hx⟩ := run_step hs₀ hr
    rcases ih hr₁ with hheld | ⟨hdefinitive, a, c, b, lockToken, rfl, hc⟩
    · cases hheld.step hknown (fun _ h => by cases h) hx with
      | held hstill => exact .inl hstill
      | sends outcome' hwaits => cases hwaits
      | clears outcome' lockToken hanswered hdefinitive htoken hcleared hgone =>
        obtain rfl := (FenceState.answered.inj hanswered).2
        exact .inr ⟨hdefinitive, post, x, [], lockToken, rfl, htoken, hcleared⟩
    · exact .inr ⟨hdefinitive, a, c, b ++ [x], lockToken, by simp, hc⟩

theorem run_recorded {pre post : List (Event κ ω)} (hs₀ : Keyed s₀)
    (hheld : Held key started w i (.recorded key started) pre (tablesAfter semanticKey s₀ pre))
    (hr : DeliveryRun semanticKey ok s₀ (pre ++ post) t p) :
    Held key started w i (.recorded key started) (pre ++ post)
        (tablesAfter semanticKey s₀ (pre ++ post)) ∨
      ∃ a z b outcome, post = a ++ z :: b ∧ sent? z = some (w, key, outcome) ∧
        Held key started w i (.answered key outcome) (pre ++ a ++ [z])
          (tablesAfter semanticKey s₀ (pre ++ a ++ [z])) := by
  induction post using List.reverseRecOn generalizing t p with
  | nil => exact .inl ((List.append_nil pre).symm ▸ hheld)
  | append_singleton post x ih =>
    rw [← List.append_assoc] at hr ⊢
    obtain ⟨t₁, p₁, hr₁, hknown, hx⟩ := run_step hs₀ hr
    rcases ih hr₁ with hheld | ⟨a, z, b, outcome, rfl, hz⟩
    · cases hheld.step hknown (fun _ h => (FenceState.recorded.inj h).2.symm) hx with
      | held hstill => exact .inl hstill
      | sends outcome hwaits hsent hstill => exact .inr ⟨post, x, [], outcome, rfl, hsent, hstill⟩
      | clears outcome lockToken hanswered => cases hanswered
    · exact .inr ⟨a, z, b ++ [x], outcome, by simp, hz⟩

theorem run_waiting {q : Progress} (hr : DeliveryRun semanticKey ok s₀ h t p)
    (hq : worker.phase h w = some (i, q)) (hrecorded : q.fence = .recorded key started) :
    ∃ g x g' lockToken, h = g ++ x :: g' ∧ i.token? = some lockToken ∧
      opened? x = some (w, key, lockToken, started) ∧
      ∀ y ∈ g', y.request = .resume w → y.reply = none := by
  induction h using List.reverseRecOn generalizing t p q with
  | nil => cases hq
  | append_singleton h x ih =>
    obtain ⟨t₁, p₁, hr₁, -, hx⟩ := Pool.run_allowed program_follows hr
    have hquiet (hq : worker.phase h w = some (i, q)) (hx : x.request = .resume w → x.reply = none) :
        ∃ g x' g' lockToken, h ++ [x] = g ++ x' :: g' ∧ i.token? = some lockToken ∧
          opened? x' = some (w, key, lockToken, started) ∧
          ∀ y ∈ g', y.request = .resume w → y.reply = none := by
      obtain ⟨g, x', g', lockToken, rfl, htoken, hopened, hsince⟩ := ih hr₁ hq hrecorded
      refine ⟨g, x', g' ++ [x], lockToken, by simp, htoken, hopened, fun y hy => ?_⟩
      rcases List.mem_append.mp hy with hy | hy
      · exact hsince y hy
      · rwa [List.mem_singleton.mp hy]
    cases hx with
    | idle hshown hstore => exact hquiet (Protocol.phase_idle hshown w ▸ hq) fun _ => hshown
    | starts w₁ i₁ result hrequest hshown hstore =>
      rcases Protocol.phase_starts hrequest hshown hq with ⟨-, -, rfl⟩ | ⟨-, hq⟩
      · cases hrecorded
      · exact hquiet hq fun h => by rw [hrequest] at h; cases h
    | performs w₁ i₁ q₁ e r result hrequest hshown hq₁ hmay hsem =>
      rcases Protocol.phase_performs hrequest hshown hq₁ hq with ⟨rfl, rfl, rfl⟩ | ⟨hne, hq⟩
      · obtain ⟨cfg, d, lockToken, ready, e, rfl⟩ := next_recorded hmay hrecorded
        exact ⟨h, x, [], lockToken, rfl, hmay.1, by rw [opened?, hrequest, hshown],
          fun y hy => by cases hy⟩
      · exact hquiet hq fun h => by
          rw [hrequest] at h
          exact absurd (Move.resume.inj h).symm hne

theorem run_keeps {pre post : List (Event κ ω)} (hs₀ : Keyed s₀)
    (hr : DeliveryRun semanticKey ok s₀ (pre ++ post) t p) {source : κ}
    (hsource : (tablesAfter semanticKey s₀ pre).fences source = some .completed) :
    (tablesAfter semanticKey s₀ (pre ++ post)).fences source = some .completed := by
  induction post using List.reverseRecOn generalizing t p with
  | nil => rwa [List.append_nil]
  | append_singleton post x ih =>
    rw [← List.append_assoc] at hr ⊢
    obtain ⟨t₁, p₁, hr₁, hknown, hx⟩ := run_step hs₀ hr
    exact (allowed_cools hknown hx).1.completed source (ih hr₁)

theorem run_withdrawn {source : SourceIdentity} (hs₀ : Keyed s₀)
    (hr : DeliveryRun semanticKey ok s₀ (h ++ [x]) t p) (hx : withdrawn? x = some source) :
    (tablesAfter semanticKey s₀ (h ++ [x])).fences (semanticKey source) = some .completed := by
  obtain ⟨t₁, p₁, hr₁, hknown, hallowed⟩ := run_step hs₀ hr
  cases hallowed with
  | idle hshown hstore => rw [withdrawn?, hshown] at hx; cases hx
  | starts w i result hrequest hshown hstore => rw [withdrawn?, hshown] at hx; cases hx
  | performs w i q e r result hrequest hshown hq hmay hsem =>
    rw [withdrawn?, hshown] at hx
    cases e with
    | cancelSource source' =>
      obtain rfl := Option.some.inj hx
      rw [← (Prod.mk.inj hsem).1]
      exact Function.update_self ..
    | _ => cases hx

/-- One answer to a source message, and none to a withdrawn one. An attempt is opened when its fence
is recorded, and is answered when the HTTP send was entered. -/
structure AnswerContract (semanticKey : SourceIdentity → κ) (s₀ : Db κ) (h : List (Event κ ω)) :
    Prop where
  /-- The HTTP send is entered for a fence that the worker recorded itself, in its last step, and
  that is still set. -/
  own : ∀ h₁ z h₂ w key outcome, h = h₁ ++ z :: h₂ → sent? z = some (w, key, outcome) →
    ∃ g x g' lockToken started, h₁ = g ++ x :: g' ∧ opened? x = some (w, key, lockToken, started) ∧
      (∀ y ∈ g', y.request = .resume w → y.reply = none) ∧
      Fenced key started (tablesAfter semanticKey s₀ h₁)
  /-- An attempt is opened under the worker's own lock token, and for an admitted message. -/
  leased : ∀ h₁ x h₂ w key lockToken started, h = h₁ ++ x :: h₂ →
    opened? x = some (w, key, lockToken, started) →
    ∃ row, (tablesAfter semanticKey s₀ h₁).deliveries key = some row ∧ row.Leased lockToken ∧
      (tablesAfter semanticKey s₀ h₁).fences (semanticKey row.source) = some .ready
  /-- Another attempt is opened only after the one before was definitively rejected and cleared by
  its own worker. -/
  once : ∀ h₁ x h₂ y h₃ w w' key lockToken lockToken' started started',
    h = h₁ ++ x :: h₂ ++ y :: h₃ → opened? x = some (w, key, lockToken, started) →
    opened? y = some (w', key, lockToken', started') →
    ∃ a z b c e outcome, h₂ = a ++ z :: (b ++ c :: e) ∧ sent? z = some (w, key, outcome) ∧
      outcome.definitiveNonDelivery = true ∧ cleared? c = some (w, key, lockToken)
  /-- And so is another HTTP send entered. -/
  unrepeated : ∀ h₁ x h₂ y h₃ w w' key outcome outcome', h = h₁ ++ x :: h₂ ++ y :: h₃ →
    sent? x = some (w, key, outcome) → sent? y = some (w', key, outcome') →
    outcome.definitiveNonDelivery = true ∧
      ∃ a c b lockToken, h₂ = a ++ c :: b ∧ cleared? c = some (w, key, lockToken)
  /-- A withdrawal completes the fence of its message. -/
  withdrawn : ∀ h₁ x h₂ source, h = h₁ ++ x :: h₂ → withdrawn? x = some source →
    (tablesAfter semanticKey s₀ (h₁ ++ [x])).fences (semanticKey source) = some .completed
  /-- No attempt is opened for a message whose fence is completed. -/
  unanswered : ∀ h₁ h₂ y h₃ w key lockToken started row, h = h₁ ++ h₂ ++ y :: h₃ →
    opened? y = some (w, key, lockToken, started) →
    (tablesAfter semanticKey s₀ (h₁ ++ h₂)).deliveries key = some row →
    (tablesAfter semanticKey s₀ h₁).fences (semanticKey row.source) ≠ some .completed

theorem one_answer (hs₀ : Keyed s₀) (hr : DeliveryRun semanticKey ok s₀ h t p) :
    AnswerContract semanticKey s₀ h := by
  constructor
  · rintro h₁ z h₂ w key outcome rfl hz
    rw [List.append_cons] at hr
    obtain ⟨t₁, p₁, hr₁, -⟩ := hr.of_append
    obtain ⟨i, q, started, hq, hrecorded, hheld, -⟩ := run_sent hs₀ hr₁ hz
    obtain ⟨t₂, p₂, hr₂, -⟩ := hr₁.of_append
    obtain ⟨g, x, g', lockToken, hg, -, hx, hsince⟩ := run_waiting hr₂ hq hrecorded
    exact ⟨g, x, g', lockToken, started, hg, hx, hsince, hheld.fenced⟩
  · rintro h₁ x h₂ w key lockToken started rfl hx
    rw [List.append_cons] at hr
    obtain ⟨t₁, p₁, hr₁, -⟩ := hr.of_append
    obtain ⟨i, row, -, hrow, hleased, hadmitted, -⟩ := run_opened hs₀ hr₁ hx
    exact ⟨row, hrow, hleased, hadmitted⟩
  · rintro h₁ x h₂ y h₃ w w' key lockToken lockToken' started started' rfl hx hy
    rw [List.append_cons] at hr
    obtain ⟨t₃, p₃, hr₃, -⟩ := hr.of_append
    rw [List.append_cons h₁ x h₂] at hr₃
    obtain ⟨t₂, p₂, hr₂, -⟩ := hr₃.of_append
    obtain ⟨t₁, p₁, hr₁, -⟩ := hr₂.of_append
    obtain ⟨i, -, htoken, -, -, -, hheld⟩ := run_opened hs₀ hr₁ hx
    obtain ⟨-, row, -, hrow, hleased, -, -⟩ := run_opened hs₀ hr₃ hy
    have hfree : ∀ started, ¬Fenced key started
        (tablesAfter semanticKey s₀ (h₁ ++ [x] ++ h₂)) := by
      rintro started ⟨row', hrow', hstarted⟩
      obtain rfl := Option.some.inj (hrow.symm.trans hrow')
      rw [hleased.unfenced] at hstarted
      cases hstarted
    rcases run_recorded hs₀ hheld hr₂ with hstill | ⟨a, z, b, outcome, rfl, hz, hheld⟩
    · exact absurd hstill.fenced (hfree _)
    · rw [List.append_cons a z b, ← List.append_assoc, ← List.append_assoc] at hr₂ hfree
      rcases run_answered hs₀ hheld hr₂ with hstill | ⟨hdefinitive, b, c, e, token, rfl, hown, hc⟩
      · exact absurd hstill.fenced (hfree _)
      · obtain rfl := Option.some.inj (htoken.symm.trans hown)
        exact ⟨a, z, b, c, e, outcome, rfl, hz, hdefinitive, hc⟩
  · rintro h₁ x h₂ y h₃ w w' key outcome outcome' rfl hx hy
    rw [List.append_cons] at hr
    obtain ⟨t₃, p₃, hr₃, -⟩ := hr.of_append
    rw [List.append_cons h₁ x h₂] at hr₃
    obtain ⟨t₂, p₂, hr₂, -⟩ := hr₃.of_append
    obtain ⟨t₁, p₁, hr₁, -⟩ := hr₂.of_append
    obtain ⟨i, q, started, -, -, -, hheld⟩ := run_sent hs₀ hr₁ hx
    obtain ⟨i', q', started', hq', hrecorded, -, -⟩ := run_sent hs₀ hr₃ hy
    rcases run_answered hs₀ hheld hr₂ with hstill | ⟨hdefinitive, a, c, b, token, rfl, -, hc⟩
    · have hother := (hstill.only w' i' q' hq' (by rw [hrecorded]; rfl)).2.2
      rw [hrecorded] at hother
      cases hother
    · exact ⟨hdefinitive, a, c, b, token, rfl, hc⟩
  · rintro h₁ x h₂ source rfl hx
    rw [List.append_cons] at hr
    obtain ⟨t₁, p₁, hr₁, -⟩ := hr.of_append
    exact run_withdrawn hs₀ hr₁ hx
  · rintro h₁ h₂ y h₃ w key lockToken started row rfl hy hrow hcompleted
    rw [List.append_cons] at hr
    obtain ⟨t₂, p₂, hr₂, -⟩ := hr.of_append
    obtain ⟨t₁, p₁, hr₁, -⟩ := hr₂.of_append
    obtain ⟨i, row', -, hrow', -, hadmitted, -⟩ := run_opened hs₀ hr₂ hy
    obtain rfl := Option.some.inj (hrow.symm.trans hrow')
    rw [run_keeps hs₀ hr₁ hcompleted] at hadmitted
    cases hadmitted

end Runs

/-- Message `a` is rejected, cleared and answered; `c` is answered once. -/
theorem one_answer_minute :
    minuteRun.1.filterMap sent? = [(0, ("chat", "a"), .failed (some 429) false),
        (0, ("chat", "a"), .sent "answer to a"), (0, ("chat", "c"), .sent "answer to c")] ∧
      minuteRun.1.filterMap cleared? = [(0, ("chat", "a"), "t1")] ∧
      AnswerContract id minuteTables minuteRun.1 := by
  refine ⟨by decide +kernel, by decide +kernel, ?_⟩
  obtain ⟨t, hr⟩ : ∃ t, DeliveryRun id (fun _ _ _ => True) minuteTables minuteRun.1 t minuteRun.2 :=
    run_play (by decide) (accepted_of_forall (fun _ _ _ => trivial) _ _)
  exact one_answer keyed_minuteTables hr

end Maxim.Publisher.AutoReply.Delivery
