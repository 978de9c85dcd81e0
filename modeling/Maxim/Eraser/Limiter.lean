import Maxim.Library.Run
import Maxim.Library.Expiry

/-!
# The admission gate of the eraser

Every request to the messenger passes one script on the store's clock. Four keys
hold the next date at which a request may be admitted: for the token, for all
requests, for a chat and for safety reads. Each expires on its own, and none
before the date that it holds.
-/

namespace Maxim.Eraser.Limiter

open Maxim.Library

structure Keys where
  cooldown : Slot Nat
  next : Slot Nat
  chat : Slots String Nat
  safety : Slot Nat

def Keys.empty : Keys := ⟨none, none, fun _ => none, none⟩

def Keys.purge (now : Nat) (k : Keys) : Keys :=
  ⟨Library.purge now k.cooldown, Library.purge now k.next, fun c => Library.purge now (k.chat c),
    Library.purge now k.safety⟩

/-- The two scripts with their arguments. -/
inductive Call
  | admitHttp (gap : Nat) (chatId : Option String) (safety : Bool)
  | cooldown (ms : Nat)
  deriving DecidableEq

/-- `tonumber(redis.call('GET', key) or '0')` -/
def date (s : Slot Nat) : Nat := (content s).getD 0

def chatDate (k : Keys) (chatId : Option String) : Nat := chatId.elim 0 fun c => date (k.chat c)

def safetyDate (k : Keys) (safety : Bool) : Nat := if safety then date k.safety else 0

/-- `ADMIT_HTTP_LUA`; the answer is 0, a wait, or the negated rest of a long cooldown. -/
def admitHttp (now gap : Nat) (chatId : Option String) (safety : Bool) (k : Keys) : Keys × Int :=
  let cooldown := date k.cooldown
  if now + 1000 < cooldown then (k, -((cooldown - now : Nat) : Int))
  else
    let atMs := max (max cooldown (date k.next)) (max (chatDate k chatId) (safetyDate k safety))
    if now < atMs then (k, ((atMs - now : Nat) : Int))
    else
      ({ k with
          next := cell (now + gap) (now + 60000)
          chat := chatId.elim k.chat fun c => put k.chat c (cell (now + 1000) (now + 60000))
          safety := if safety then cell (now + 1000) (now + 60000) else k.safety }, 0)

def cooldownHttp (now ms : Nat) (k : Keys) : Keys × Int :=
  let deadline := now + ms
  let old := date k.cooldown
  (if old < deadline then { k with cooldown := cell deadline (now + (ms + 60000)) } else k,
    ((max deadline old : Nat) : Int))

def step (now : Nat) : Call → Keys → Keys × Int
  | .admitHttp gap chatId safety, k => admitHttp now gap chatId safety (k.purge now)
  | .cooldown ms, k => cooldownHttp now ms (k.purge now)

/-! ## The callers -/

structure HttpLimiter where
  rps : Nat
  reducedUntil : Nat

def HttpLimiter.effectiveRps (l : HttpLimiter) (localNow : Nat) : Nat :=
  if localNow < l.reducedUntil then max 1 (l.rps / 2) else l.rps

def HttpLimiter.acquire (l : HttpLimiter) (localNow : Nat) (chatId : Option String) (safety : Bool) :
    Call :=
  let rps := l.effectiveRps localNow
  .admitHttp ((1000 + (rps - 1)) / rps) (chatId.filter fun c => c ≠ "") safety

def HttpLimiter.cooldown (l : HttpLimiter) (localNow ms : Nat) : HttpLimiter × Call :=
  ({ l with reducedUntil := localNow + 60000 }, .cooldown (min (max 1000 ms) 86400000))

/-- What `acquire` makes of the answer: a wait of at most a second before the next turn. -/
inductive Turn
  | deferred (retryAfterMs : Nat)
  | admitted
  | wait (ms : Nat)
  deriving DecidableEq

def turn (answer : Int) : Turn :=
  if answer < 0 then .deferred (-answer).toNat
  else if answer = 0 then .admitted
  else .wait (min answer.toNat 1000)

/-- What a process asks for, by its own clock. -/
inductive Task
  | acquire (chatId : Option String) (safety : Bool)
  | cooldown (ms : Nat)

structure Request (π : Type) where
  process : π
  localNow : Nat
  task : Task

variable {π : Type} [DecidableEq π]

def perform (l : π → HttpLimiter) (r : Request π) : (π → HttpLimiter) × Call :=
  match r.task with
  | .acquire chatId safety => (l, (l r.process).acquire r.localNow chatId safety)
  | .cooldown ms =>
    let (l', call) := (l r.process).cooldown r.localNow ms
    (Function.update l r.process l', call)

/-- A turn of one process among the others; the reply is the call it made and the answer. -/
def fleetStep (now : Nat) (r : Request π) (s : (π → HttpLimiter) × Keys) :
    ((π → HttpLimiter) × Keys) × Call × Int :=
  let (l, call) := perform s.1 r
  let (k, answer) := step now call s.2
  ((l, k), call, answer)

def anyone {ι : Type} (_ : List (Entry ι Int)) (_ : Nat) (_ : ι) : Prop := True

def scripted (e : Entry (Request π) (Call × Int)) : Entry Call Int := ⟨e.now, e.reply.1, e.reply.2⟩

theorem fleet_run {l₀ : π → HttpLimiter} {h : List (Entry (Request π) (Call × Int))} {t : Nat}
    {s : (π → HttpLimiter) × Keys}
    (hr : Run fleetStep (fun _ _ _ => True) (l₀, Keys.empty) h t s) :
    Run step anyone Keys.empty (h.map scripted) t s.2 := by
  induction hr with
  | nil => exact .nil
  | snoc now r _ hle _ ih =>
    rw [List.map_append]
    exact .snoc now _ ih hle trivial

theorem turn_admitted {answer : Int} : turn answer = .admitted ↔ answer = 0 := by
  unfold turn
  split
  · next hneg =>
    refine ⟨nofun, fun h => ?_⟩
    omega
  · split
    · next hzero => exact ⟨fun _ => hzero, fun _ => rfl⟩
    · next hne => exact ⟨nofun, fun h => absurd h hne⟩

/-! ## One script -/

/-- What an admission says about the keys, and what it writes. -/
structure Admitted (now gap : Nat) (chatId : Option String) (safety : Bool) (k k' : Keys) :
    Prop where
  cooldownPast : date k.cooldown ≤ now
  nextPast : date k.next ≤ now
  chatPast : ∀ c, chatId = some c → date (k.chat c) ≤ now
  safetyPast : safety = true → date k.safety ≤ now
  keeps : k'.cooldown = k.cooldown
  writes : k'.next = cell (now + gap) (now + 60000)
  writesChat : k'.chat = chatId.elim k.chat fun c => put k.chat c (cell (now + 1000) (now + 60000))
  writesSafety : k'.safety = if safety then cell (now + 1000) (now + 60000) else k.safety

theorem admitHttp_cases (now gap : Nat) (chatId : Option String) (safety : Bool) (k : Keys) :
    ((admitHttp now gap chatId safety k).2 ≠ 0 ∧ (admitHttp now gap chatId safety k).1 = k) ∨
      ((admitHttp now gap chatId safety k).2 = 0 ∧
        Admitted now gap chatId safety k (admitHttp now gap chatId safety k).1) := by
  unfold admitHttp
  dsimp only
  split
  · next hlong =>
    refine .inl ⟨?_, rfl⟩
    show -((date k.cooldown - now : Nat) : Int) ≠ 0
    omega
  · split
    · next hwait =>
      refine .inl ⟨?_, rfl⟩
      show ((max (max (date k.cooldown) (date k.next))
        (max (chatDate k chatId) (safetyDate k safety)) - now : Nat) : Int) ≠ 0
      omega
    · next hnow =>
      have hle := Nat.le_of_not_lt hnow
      refine .inr ⟨rfl, ?_, ?_, fun c hc => ?_, fun hs => ?_, rfl, rfl, rfl, rfl⟩
      · omega
      · omega
      · have hdate : chatDate k chatId = date (k.chat c) := by rw [hc]; rfl
        omega
      · have hdate : safetyDate k safety = date k.safety := by rw [hs]; rfl
        omega

/-! ## Every run -/

def Admits (gap : Nat) (chatId : Option String) (safety : Bool) (e : Entry Call Int) : Prop :=
  e.request = .admitHttp gap chatId safety ∧ e.reply = 0

/-- How an earlier call `a` binds a later call `b`. -/
structure Binds (a b : Entry Call Int) : Prop where
  gap : ∀ g c s g' c' s', Admits g c s a → Admits g' c' s' b → a.now + min g 60000 ≤ b.now
  chat : ∀ g s g' s' c, Admits g (some c) s a → Admits g' (some c) s' b → a.now + 1000 ≤ b.now
  safety : ∀ g c g' c', Admits g c true a → Admits g' c' true b → a.now + 1000 ≤ b.now
  cooldown : ∀ ms g c s, a.request = .cooldown ms → Admits g c s b → a.reply ≤ b.now
  deadline : ∀ ms ms', a.request = .cooldown ms → b.request = .cooldown ms' → a.reply ≤ b.reply

/-- What the keys remember of a call. -/
structure Remembers (t : Nat) (k : Keys) (e : Entry Call Int) : Prop where
  gap : ∀ g c s, Admits g c s e → Guards t k.next (e.now + min g 60000)
  chat : ∀ g s c, Admits g (some c) s e → Guards t (k.chat c) (e.now + 1000)
  safety : ∀ g c, Admits g c true e → Guards t k.safety (e.now + 1000)
  cooldown : ∀ ms, e.request = .cooldown ms →
    ∃ d : Nat, e.reply = d ∧ e.now + ms ≤ d ∧ Guards t k.cooldown d

def Kept (k : Keys) : Prop := ∀ c, k.cooldown = some c → c.expiresAt = some (c.value + 60000)

theorem Remembers.mono {t t' : Nat} {k : Keys} {e : Entry Call Int} (h : Remembers t k e)
    (hle : t ≤ t') : Remembers t' k e where
  gap g c s hadm := (h.gap g c s hadm).mono hle
  chat g s c hadm := (h.chat g s c hadm).mono hle
  safety g c hadm := (h.safety g c hadm).mono hle
  cooldown ms hreq := by
    obtain ⟨d, hreply, hd, hguard⟩ := h.cooldown ms hreq
    exact ⟨d, hreply, hd, hguard.mono hle⟩

theorem Remembers.purge {t : Nat} {k : Keys} {e : Entry Call Int} (h : Remembers t k e) :
    Remembers t (k.purge t) e where
  gap g c s hadm := (h.gap g c s hadm).purge
  chat g s c hadm := (h.chat g s c hadm).purge
  safety g c hadm := (h.safety g c hadm).purge
  cooldown ms hreq := by
    obtain ⟨d, hreply, hd, hguard⟩ := h.cooldown ms hreq
    exact ⟨d, hreply, hd, hguard.purge⟩

theorem guards_past {t d : Nat} {s : Slot Nat} (h : Guards t s d) (hdate : date s ≤ t) : d ≤ t := by
  rcases h.le with hd | hd
  · exact hd
  · exact Nat.le_trans hd hdate

section Admission

variable {t g : Nat} {c : Option String} {s : Bool} {k k' : Keys} {e : Entry Call Int}

theorem Remembers.binds (h : Remembers t k e) (hadm : Admitted t g c s k k') :
    Binds e ⟨t, .admitHttp g c s, 0⟩ where
  gap g₁ c₁ s₁ _ _ _ he _ := guards_past (h.gap g₁ c₁ s₁ he) hadm.nextPast
  chat g₁ s₁ g₂ s₂ c₁ he hb := by
    obtain ⟨hreq, -⟩ := hb
    obtain ⟨-, hchat, -⟩ := Call.admitHttp.inj hreq
    exact guards_past (h.chat g₁ s₁ c₁ he) (hadm.chatPast c₁ hchat)
  safety g₁ c₁ g₂ c₂ he hb := by
    obtain ⟨hreq, -⟩ := hb
    obtain ⟨-, -, hsafety⟩ := Call.admitHttp.inj hreq
    exact guards_past (h.safety g₁ c₁ he) (hadm.safetyPast hsafety)
  cooldown ms _ _ _ hreq _ := by
    obtain ⟨d, hreply, -, hguard⟩ := h.cooldown ms hreq
    have hle := guards_past hguard hadm.cooldownPast
    rw [hreply]
    exact Int.ofNat_le.mpr hle
  deadline _ _ _ hb := by cases hb

theorem Remembers.admitted (h : Remembers t k e) (hadm : Admitted t g c s k k') :
    Remembers t k' e where
  gap g₁ c₁ s₁ he := .inl (guards_past (h.gap g₁ c₁ s₁ he) hadm.nextPast)
  chat g₁ s₁ c₁ he := by
    have hguard := h.chat g₁ s₁ c₁ he
    rw [hadm.writesChat]
    cases hc : c with
    | none => exact hguard
    | some chat =>
      by_cases heq : c₁ = chat
      · exact .inl (guards_past hguard (hadm.chatPast c₁ (hc.trans (congrArg some heq.symm))))
      · rw [Option.elim_some, put_other _ heq]
        exact hguard
  safety g₁ c₁ he := by
    have hguard := h.safety g₁ c₁ he
    rw [hadm.writesSafety]
    split
    · next hs => exact .inl (guards_past hguard (hadm.safetyPast hs))
    · exact hguard
  cooldown ms hreq := by
    obtain ⟨d, hreply, hd, hguard⟩ := h.cooldown ms hreq
    refine ⟨d, hreply, hd, ?_⟩
    rw [hadm.keeps]
    exact hguard

theorem Admitted.remembers (hadm : Admitted t g c s k k') :
    Remembers t k' ⟨t, .admitHttp g c s, 0⟩ where
  gap g₁ c₁ s₁ he := by
    obtain ⟨rfl, -, -⟩ := Call.admitHttp.inj he.1
    rw [hadm.writes]
    change Guards t _ (t + min g 60000)
    exact guards_cell (by omega) (by omega)
  chat g₁ s₁ c₁ he := by
    obtain ⟨-, hc, -⟩ := Call.admitHttp.inj he.1
    rw [hadm.writesChat, hc, Option.elim_some, put_same]
    change Guards t _ (t + 1000)
    exact guards_cell (Nat.le_refl _) (by omega)
  safety g₁ c₁ he := by
    obtain ⟨-, -, hs⟩ := Call.admitHttp.inj he.1
    rw [hadm.writesSafety, if_pos hs]
    change Guards t _ (t + 1000)
    exact guards_cell (Nat.le_refl _) (by omega)
  cooldown _ hreq := by cases hreq

end Admission

section Cooldown

variable {t ms : Nat} {k : Keys} {e : Entry Call Int}

theorem cooldownHttp_guards {d : Nat} (h : Guards t k.cooldown d) :
    Guards t (cooldownHttp t ms k).1.cooldown d := by
  unfold cooldownHttp
  dsimp only
  split
  · next hlt =>
    refine guards_cell ?_ ?_
    · rcases h.le with hd | hd
      · omega
      · exact Nat.le_trans hd (Nat.le_of_lt hlt)
    · rcases h.le with hd | hd
      · omega
      · have hle := Nat.le_trans hd (Nat.le_of_lt hlt)
        omega
  · exact h

theorem cooldownHttp_kept (h : Kept k) : Kept (cooldownHttp t ms k).1 := by
  unfold cooldownHttp
  dsimp only
  split
  · intro c hc
    obtain rfl := Option.some.inj hc
    exact congrArg some (Nat.add_assoc t ms 60000).symm
  · exact h

theorem cooldownHttp_answer (hkept : Kept k) :
    Guards t (cooldownHttp t ms k).1.cooldown (max (t + ms) (date k.cooldown)) := by
  unfold cooldownHttp
  dsimp only
  split
  · next hlt => exact guards_cell (by omega) (by omega)
  · next hge =>
    have hmax : max (t + ms) (date k.cooldown) = date k.cooldown := by omega
    rw [hmax]
    cases hslot : k.cooldown with
    | none => exact .inl (Nat.zero_le _)
    | some c =>
      have hx := hkept c hslot
      obtain ⟨v, x⟩ := c
      change x = some (v + 60000) at hx
      subst hx
      exact guards_cell (Nat.le_refl _) (Nat.le_add_right _ _)

theorem Remembers.binds_cooldown (h : Remembers t k e) :
    Binds e ⟨t, .cooldown ms, (cooldownHttp t ms k).2⟩ where
  gap _ _ _ _ _ _ _ hb := by cases hb.1
  chat _ _ _ _ _ _ hb := by cases hb.1
  safety _ _ _ _ _ hb := by cases hb.1
  cooldown _ _ _ _ _ hb := by cases hb.1
  deadline ms₁ _ hreq _ := by
    obtain ⟨d, hreply, -, hguard⟩ := h.cooldown ms₁ hreq
    have hle : d ≤ max (t + ms) (date k.cooldown) := by
      rcases hguard.le with hd | hd
      · omega
      · exact Nat.le_trans hd (Nat.le_max_right _ _)
    rw [hreply]
    exact Int.ofNat_le.mpr hle

theorem Remembers.cooled (h : Remembers t k e) : Remembers t (cooldownHttp t ms k).1 e := by
  have hsame : (cooldownHttp t ms k).1.next = k.next ∧ (cooldownHttp t ms k).1.chat = k.chat ∧
      (cooldownHttp t ms k).1.safety = k.safety := by
    unfold cooldownHttp
    dsimp only
    split <;> exact ⟨rfl, rfl, rfl⟩
  obtain ⟨hnext, hchat, hsafety⟩ := hsame
  refine ⟨?_, ?_, ?_, fun ms₁ hreq => ?_⟩
  · rw [hnext]
    exact h.gap
  · rw [hchat]
    exact h.chat
  · rw [hsafety]
    exact h.safety
  · obtain ⟨d, hreply, hd, hguard⟩ := h.cooldown ms₁ hreq
    exact ⟨d, hreply, hd, cooldownHttp_guards hguard⟩

theorem cooldownHttp_remembers (hkept : Kept k) :
    Remembers t (cooldownHttp t ms k).1 ⟨t, .cooldown ms, (cooldownHttp t ms k).2⟩ where
  gap _ _ _ he := by cases he.1
  chat _ _ _ he := by cases he.1
  safety _ _ he := by cases he.1
  cooldown ms₁ hreq := by
    obtain rfl := Call.cooldown.inj hreq
    exact ⟨max (t + ms) (date k.cooldown), rfl, Nat.le_max_left _ _, cooldownHttp_answer hkept⟩

end Cooldown

/-! ## Every run -/

theorem waits_binds {t g : Nat} {c : Option String} {s : Bool} {answer : Int} (hne : answer ≠ 0)
    (e : Entry Call Int) : Binds e ⟨t, .admitHttp g c s, answer⟩ where
  gap _ _ _ _ _ _ _ hb := absurd hb.2 hne
  chat _ _ _ _ _ _ hb := absurd hb.2 hne
  safety _ _ _ _ _ hb := absurd hb.2 hne
  cooldown _ _ _ _ _ hb := absurd hb.2 hne
  deadline _ _ _ hb := by cases hb

theorem waits_remembers {t g : Nat} {c : Option String} {s : Bool} {answer : Int} (hne : answer ≠ 0)
    (k : Keys) : Remembers t k ⟨t, .admitHttp g c s, answer⟩ where
  gap _ _ _ he := absurd he.2 hne
  chat _ _ _ he := absurd he.2 hne
  safety _ _ he := absurd he.2 hne
  cooldown _ hreq := by cases hreq

/-- Every call is bound by all calls before it, and all of them are remembered. -/
structure Spaced (h : List (Entry Call Int)) (t : Nat) (k : Keys) : Prop where
  binds : h.Pairwise Binds
  remembers : ∀ e ∈ h, Remembers t k e
  kept : Kept k

theorem Spaced.snoc {h : List (Entry Call Int)} {t : Nat} {k k' : Keys} {e : Entry Call Int}
    (hs : Spaced h t k) (hbinds : ∀ a, Remembers t k a → Binds a e)
    (hold : ∀ a, Remembers t k a → Remembers t k' a) (hnew : Remembers t k' e) (hkept : Kept k') :
    Spaced (h ++ [e]) t k' := by
  refine ⟨List.pairwise_append.mpr ⟨hs.binds, List.pairwise_singleton _ _, ?_⟩, ?_, hkept⟩
  · intro a ha b hb
    obtain rfl := List.mem_singleton.mp hb
    exact hbinds a (hs.remembers a ha)
  · intro a ha
    rcases List.mem_append.mp ha with ha | ha
    · exact hold a (hs.remembers a ha)
    · exact List.mem_singleton.mp ha ▸ hnew

theorem Spaced.purge {h : List (Entry Call Int)} {t : Nat} {k : Keys} (hs : Spaced h t k) :
    Spaced h t (k.purge t) := by
  refine ⟨hs.binds, fun e he => (hs.remembers e he).purge, fun c hc => ?_⟩
  exact hs.kept c (purge_eq_some.mp hc).1

theorem Spaced.step {h : List (Entry Call Int)} {t : Nat} {k : Keys} (hs : Spaced h t k)
    (call : Call) : Spaced (h ++ [⟨t, call, (step t call k).2⟩]) t (step t call k).1 := by
  have hp := hs.purge
  cases call with
  | admitHttp g c s =>
    rcases admitHttp_cases t g c s (k.purge t) with ⟨hne, hsame⟩ | ⟨hzero, hadm⟩
    · show Spaced _ t (admitHttp t g c s (k.purge t)).1
      rw [hsame]
      exact hp.snoc (fun a _ => waits_binds hne a) (fun _ h => h) (waits_remembers hne _) hp.kept
    · show Spaced (h ++ [⟨t, .admitHttp g c s, (admitHttp t g c s (k.purge t)).2⟩]) t _
      rw [hzero]
      refine hp.snoc (fun a ha => ha.binds hadm) (fun a ha => ha.admitted hadm) hadm.remembers ?_
      intro cell hcell
      rw [show (Limiter.step t (.admitHttp g c s) k).1.cooldown = _ from hadm.keeps] at hcell
      exact hp.kept cell hcell
  | cooldown ms =>
    exact hp.snoc (fun a ha => ha.binds_cooldown) (fun a ha => ha.cooled)
      (cooldownHttp_remembers hp.kept) (cooldownHttp_kept hp.kept)

theorem run_spaced {h : List (Entry Call Int)} {t : Nat} {k : Keys}
    (hr : Run step anyone Keys.empty h t k) : Spaced h t k :=
  hr.invariant Spaced ⟨.nil, by simp, by intro c hc; cases hc⟩
    (fun _ _ _ _ hs hle => ⟨hs.binds, fun e he => (hs.remembers e he).mono hle, hs.kept⟩)
    fun _ _ _ call hs _ => hs.step call

/-- In every run of the scripts each call is bound by all calls before it: an admission by the gaps
of earlier ones and by earlier cooldowns, a cooldown by the deadlines that were answered before. A
deadline that was answered is stored until it has passed. -/
theorem limiter_spaces {h : List (Entry Call Int)} {t : Nat} {k : Keys}
    (hr : Run step anyone Keys.empty h t k) :
    h.Pairwise Binds ∧ ∀ e ∈ h, ∀ ms, e.request = .cooldown ms →
      ((e.now + ms : Nat) : Int) ≤ e.reply ∧
        ∀ now, t ≤ now → e.reply ≤ now ∨ e.reply ≤ date (k.purge now).cooldown := by
  have hs := run_spaced hr
  refine ⟨hs.binds, fun e he ms hreq => ?_⟩
  obtain ⟨d, hreply, hd, hguard⟩ := (hs.remembers e he).cooldown ms hreq
  rw [hreply]
  refine ⟨Int.ofNat_le.mpr hd, fun now hle => ?_⟩
  exact (hguard.mono hle).purge.le.imp Int.ofNat_le.mpr Int.ofNat_le.mpr

/-- Two processes: a request, a long rejection, a request during it and one after it. -/
def rejectedOnce : List (Entry Call Int) :=
  [⟨0, .admitHttp 50 (some "c") true, 0⟩, ⟨10, .cooldown 5000, 5010⟩, ⟨20, .cooldown 1000, 5010⟩,
    ⟨100, .admitHttp 50 none false, -4910⟩, ⟨4500, .admitHttp 50 (some "c") false, 510⟩,
    ⟨5010, .admitHttp 50 (some "c") false, 0⟩]

def play (h : List (Entry Call Int)) : Keys :=
  h.foldl (fun k e => (step e.now e.request k).1) Keys.empty

theorem rejectedOnce_run : Run step anyone Keys.empty rejectedOnce 5010 (play rejectedOnce) := by
  have h₀ : Run step anyone Keys.empty [] 0 Keys.empty := .nil
  have h₀ := h₀.snoc 0 (Call.admitHttp 50 (some "c") true) (by decide) trivial
  have h₁ := h₀.snoc 10 (Call.cooldown 5000) (by decide) trivial
  have h₂ := h₁.snoc 20 (Call.cooldown 1000) (by decide) trivial
  have h₃ := h₂.snoc 100 (Call.admitHttp 50 none false) (by decide) trivial
  have h₄ := h₃.snoc 4500 (Call.admitHttp 50 (some "c") false) (by decide) trivial
  exact h₄.snoc 5010 (Call.admitHttp 50 (some "c") false) (by decide) trivial

theorem limiter_spaces_rejected_once :
    rejectedOnce.Pairwise Binds ∧ ((10 + 5000 : Nat) : Int) ≤ 5010 ∧
      ((5010 : Int) ≤ (70010 : Nat) ∨ (5010 : Int) ≤ date ((play rejectedOnce).purge 70010).cooldown) := by
  obtain ⟨hbinds, hcooldown⟩ := limiter_spaces rejectedOnce_run
  obtain ⟨hown, hlater⟩ := hcooldown ⟨10, .cooldown 5000, 5010⟩ (by simp [rejectedOnce]) 5000 rfl
  exact ⟨hbinds, hown, hlater 70010 (by decide)⟩

/-! ## The fleet -/

/-- The requests that a fleet has admitted. -/
def admits (e : Entry (Request π) (Call × Int)) : Bool :=
  match e.request.task with
  | .acquire _ _ => turn e.reply.2 = .admitted
  | .cooldown _ => false

def acquiresFor (chatId : String) (e : Entry (Request π) (Call × Int)) : Bool :=
  match e.request.task with
  | .acquire c _ => c = some chatId
  | .cooldown _ => false

def within (since : Nat) (e : Entry (Request π) (Call × Int)) : Bool := since ≤ e.now && e.now < since + 1000

/-- Dates that keep a gap between them are few in a window. -/
theorem length_le_of_gaps {g n m : Nat} {l : List Nat} (h : l.Pairwise fun a b => a + g ≤ b)
    (hl : ∀ x ∈ l, m ≤ x ∧ x < m + g * n) : l.length ≤ n := by
  induction l generalizing m n with
  | nil => exact Nat.zero_le n
  | cons x l ih =>
    obtain ⟨hlo, hhi⟩ := hl x List.mem_cons_self
    cases n with
    | zero => omega
    | succ n =>
      rw [List.pairwise_cons] at h
      refine Nat.succ_le_succ (ih (m := m + g) h.2 fun y hy => ?_)
      have hgap := h.1 y hy
      have hy' := (hl y (List.mem_cons_of_mem x hy)).2
      rw [Nat.mul_succ] at hy'
      omega

theorem gap_of_acquire {l : HttpLimiter} {limit : Nat} (hrps : 0 < l.rps) (hlimit : l.rps ≤ limit) (localNow : Nat)
    (chatId : Option String) (safety : Bool) :
    ∃ gap, l.acquire localNow chatId safety = .admitHttp gap (chatId.filter fun c => c ≠ "") safety ∧
      gap ≤ 1000 ∧ (1000 + (limit - 1)) / limit ≤ gap := by
  have heffective : 0 < l.effectiveRps localNow ∧ l.effectiveRps localNow ≤ limit := by
    unfold HttpLimiter.effectiveRps
    split <;> omega
  obtain ⟨hpos, hle⟩ := heffective
  refine ⟨_, rfl, Nat.div_le_of_le_mul (by omega), ?_⟩
  have hrate (r : Nat) (hr : 0 < r) : (1000 + (r - 1)) / r = 999 / r + 1 := by
    rw [show 1000 + (r - 1) = 999 + r by omega, Nat.add_div_right _ hr]
  rw [hrate _ hpos, hrate _ (by omega)]
  exact Nat.succ_le_succ (Nat.div_le_div_left hle hpos)

theorem fleet_calls {l₀ : π → HttpLimiter} {limit : Nat} (hrps : ∀ p, 0 < (l₀ p).rps ∧ (l₀ p).rps ≤ limit)
    {h : List (Entry (Request π) (Call × Int))} {t : Nat} {s : (π → HttpLimiter) × Keys}
    (hr : Run fleetStep (fun _ _ _ => True) (l₀, Keys.empty) h t s) :
    (∀ p, (s.1 p).rps = (l₀ p).rps) ∧ ∀ e ∈ h, ∀ chatId safety, e.request.task = .acquire chatId safety →
      ∃ gap, e.reply.1 = .admitHttp gap (chatId.filter fun c => c ≠ "") safety ∧ gap ≤ 1000 ∧ (1000 + (limit - 1)) / limit ≤ gap := by
  induction hr with
  | nil => exact ⟨fun _ => rfl, by simp⟩
  | @snoc h t s now r hr hle _ ih =>
    obtain ⟨hsame, hcalls⟩ := ih
    refine ⟨fun p => ?_, fun e he chatId safety htask => ?_⟩
    · rw [← hsame p]
      unfold fleetStep perform
      cases r.task with
      | acquire => rfl
      | cooldown ms =>
        by_cases hp : p = r.process
        · subst hp
          simp [HttpLimiter.cooldown]
        · simp [hp]
    · rcases List.mem_append.mp he with he | he
      · exact hcalls e he chatId safety htask
      · obtain rfl := List.mem_singleton.mp he
        obtain ⟨hpos, hlimit⟩ := hrps r.process
        rw [← hsame] at hpos hlimit
        simp only [fleetStep, perform, show r.task = .acquire chatId safety from htask]
        exact gap_of_acquire hpos hlimit _ chatId safety

/-- Whatever the processes ask for and in whatever order, in any second the fleet is admitted no more
requests than the greatest rate of a process allows, and one for each chat. -/
theorem fleet_rate {l₀ : π → HttpLimiter} {limit : Nat} (hrps : ∀ p, 0 < (l₀ p).rps ∧ (l₀ p).rps ≤ limit)
    {h : List (Entry (Request π) (Call × Int))} {t : Nat} {s : (π → HttpLimiter) × Keys}
    (hr : Run fleetStep (fun _ _ _ => True) (l₀, Keys.empty) h t s) (since : Nat) :
    (h.filter fun e => admits e && within since e).length ≤ limit ∧
      ∀ chatId, chatId ≠ "" → (h.filter fun e => admits e && acquiresFor chatId e && within since e).length ≤ 1 := by
  have hbinds := List.pairwise_map.mp (run_spaced (fleet_run hr)).binds
  obtain ⟨-, hcalls⟩ := fleet_calls hrps hr
  have hadmits : ∀ e ∈ h, admits e = true → ∃ chatId safety gap, e.request.task = .acquire chatId safety ∧
      Admits gap (chatId.filter fun c => c ≠ "") safety (scripted e) ∧ gap ≤ 1000 ∧
        (1000 + (limit - 1)) / limit ≤ gap := by
    intro e he hadmit
    unfold admits at hadmit
    split at hadmit
    · next chatId safety htask =>
      obtain ⟨gap, hcall, hgap⟩ := hcalls e he chatId safety htask
      exact ⟨chatId, safety, gap, htask, ⟨hcall, turn_admitted.mp (of_decide_eq_true hadmit)⟩, hgap⟩
    · cases hadmit
  have hfew (P : Entry (Request π) (Call × Int) → Bool) (g n : Nat) (hg : 1000 ≤ g * n)
      (hgap : ∀ a ∈ h, ∀ b ∈ h, P a = true → P b = true → Binds (scripted a) (scripted b) → a.now + g ≤ b.now) :
      (h.filter fun e => P e && within since e).length ≤ n := by
    rw [← List.length_map (f := Entry.now)]
    refine length_le_of_gaps (g := g) (m := since) (List.pairwise_map.mpr ?_) fun x hx => ?_
    · refine (hbinds.sublist List.filter_sublist).imp_of_mem fun ha hb hab => ?_
      simp only [List.mem_filter, Bool.and_eq_true] at ha hb
      exact hgap _ ha.1 _ hb.1 ha.2.1 hb.2.1 hab
    · obtain ⟨e, he, rfl⟩ := List.mem_map.mp hx
      simp only [List.mem_filter, within, Bool.and_eq_true, decide_eq_true_eq] at he
      omega
  refine ⟨?_, fun chatId hchat => ?_⟩
  · rcases h with _ | ⟨e, _⟩
    · exact Nat.zero_le _
    have hlimit := hrps e.request.process
    refine hfew admits ((1000 + (limit - 1)) / limit) limit ?_ fun a ha b hb hPa hPb hab => ?_
    · have hdiv := Nat.div_add_mod (1000 + (limit - 1)) limit
      have hmod := Nat.mod_lt (1000 + (limit - 1)) (show 0 < limit by omega)
      rw [Nat.mul_comm]
      omega
    · obtain ⟨_, _, gap, -, hcall, hshort, hlong⟩ := hadmits a ha hPa
      obtain ⟨_, _, gap', -, hcall', -⟩ := hadmits b hb hPb
      have hbound : a.now + min gap 60000 ≤ b.now := hab.gap _ _ _ _ _ _ hcall hcall'
      omega
  · refine hfew _ 1000 1 (Nat.le_refl _) fun a ha b hb hPa hPb hab => ?_
    have hcallOf : ∀ e ∈ h, (admits e && acquiresFor chatId e) = true → ∃ gap safety,
        Admits gap (some chatId) safety (scripted e) := by
      intro e he hP
      rw [Bool.and_eq_true] at hP
      obtain ⟨c, safety, gap, htask, hcall, -⟩ := hadmits e he hP.1
      have hc : c = some chatId := by simpa [acquiresFor, htask] using hP.2
      have hfilter : (some chatId).filter (fun c => decide (c ≠ "")) = some chatId := by simp [hchat]
      exact ⟨gap, safety, hfilter ▸ hc ▸ hcall⟩
    obtain ⟨_, _, hcall⟩ := hcallOf a ha hPa
    obtain ⟨_, _, hcall'⟩ := hcallOf b hb hPb
    exact hab.chat _ _ _ _ _ hcall hcall'

/-- Two processes of ten requests a second. -/
def twoProcesses : List (Entry (Request Bool) (Call × Int)) × (Bool → HttpLimiter) × Keys :=
  Library.play fleetStep (fun _ => ⟨10, 0⟩, Keys.empty)
    [(0, ⟨true, 0, .acquire (some "c") false⟩), (50, ⟨false, 7, .acquire none true⟩),
      (100, ⟨false, 57, .acquire none true⟩)]

theorem fleet_rate_two_processes :
    twoProcesses.1.map (fun e => e.reply.2) = [0, 50, 0] ∧
      (twoProcesses.1.filter fun e => admits e && within 0 e).length ≤ 10 ∧
      (twoProcesses.1.filter fun e => admits e && acquiresFor "c" e && within 0 e).length ≤ 1 := by
  obtain ⟨t, hr⟩ : ∃ t, Run fleetStep (fun _ _ _ => True) (fun _ => ⟨10, 0⟩, Keys.empty) twoProcesses.1 t
      twoProcesses.2 := run_play (by decide) (accepted_of_forall (fun _ _ _ => trivial) _ _)
  obtain ⟨hrate, hchat⟩ := @fleet_rate Bool _ _ 10 (fun _ => ⟨by decide, by decide⟩) _ _ _ hr 0
  exact ⟨by decide +kernel, hrate, hchat "c" (by decide)⟩

end Maxim.Eraser.Limiter
