import AionCore.Lib.Dict
import AionCore.Lib.Machine
import AionCore.Lib.Windows

/-!
# Authentication: rate limits

`RateLimiter` of `rate_limit.rs` and the middlewares around it. A call reads the clock once and holds
the entry of its key until it returns, so it is one step; the login handler runs between the check
of the auth middleware and the record of a failure.
-/

namespace AionCore.Auth

structure RateLimitEntry where
  count : ℕ
  resetTimeMs : ℕ

/-- Counts are 32 bits wide. -/
structure RateLimiter where
  entries : Dict String RateLimitEntry
  maxRequests : ℕ
  windowMs : ℕ
  fits : maxRequests < 2 ^ 32

namespace RateLimiter

def new (maxRequests windowMs : ℕ) (fits : maxRequests < 2 ^ 32) : RateLimiter :=
  ⟨∅, maxRequests, windowMs, fits⟩

def auth : RateLimiter := new 5 (15 * 60 * 1000) (by decide)

variable (l : RateLimiter) (key : String) (now : ℕ)

def resetTime : ℕ := (now + l.windowMs) % 2 ^ 64

/-- Whether the key is let through; else the error is `RateLimited`. -/
def check : Bool :=
  match l.entries.lookup key with
  | none => true
  | some entry => !(now < entry.resetTimeMs && l.maxRequests ≤ entry.count)

/-- The entry of the key, inserted or reset if need be. -/
def entry : RateLimitEntry :=
  let entry := (l.entries.lookup key).getD ⟨0, l.resetTime now⟩
  if entry.resetTimeMs ≤ now then ⟨0, l.resetTime now⟩ else entry

def put (entry : RateLimitEntry) : RateLimiter := { l with entries := l.entries.insert key entry }

def checkAndIncrement : RateLimiter × Bool :=
  let entry := l.entry key now
  if l.maxRequests ≤ entry.count then (l.put key entry, false)
  else (l.put key ⟨entry.count + 1, entry.resetTimeMs⟩, true)

def recordAttempt : RateLimiter :=
  let entry := l.entry key now
  l.put key ⟨(entry.count + 1) % 2 ^ 32, entry.resetTimeMs⟩

def cleanup : RateLimiter := { l with entries := l.entries.retain fun _ e => now < e.resetTimeMs }

def live : Option RateLimitEntry := (l.entries.lookup key).filter fun e => now < e.resetTimeMs

def used : ℕ := ((l.live key now).map RateLimitEntry.count).getD 0

variable {l key now} {l' : RateLimiter} {e : RateLimitEntry} {later : ℕ}

theorem live_eq_some : l.live key now = some e ↔
    l.entries.lookup key = some e ∧ now < e.resetTimeMs := by
  simp only [live, Option.filter_eq_some_iff, decide_eq_true_eq]

theorem live_later (h : now ≤ later) :
    l.live key later = (l.live key now).filter fun e => later < e.resetTimeMs := by
  apply Option.ext
  intro e
  have hlt : later < e.resetTimeMs → now < e.resetTimeMs := fun h' => Nat.lt_of_le_of_lt h h'
  rw [live_eq_some, Option.filter_eq_some_iff, live_eq_some, decide_eq_true_eq]
  tauto

/-- All that a call sees of the key is the entry that is live. -/
theorem entry_eq : l.entry key now = (l.live key now).getD ⟨0, l.resetTime now⟩ := by
  unfold entry live
  cases hlookup : l.entries.lookup key with
  | none =>
    show (if l.resetTime now ≤ now then _ else _) = _
    split <;> rfl
  | some e =>
    rw [Option.getD_some]
    by_cases hlive : now < e.resetTimeMs
    · rw [if_neg (by omega), Option.filter_some_pos (by simpa using hlive), Option.getD_some]
    · rw [if_pos (by omega), Option.filter_some_neg (by simpa using hlive), Option.getD_none]

theorem check_eq : l.check key now = (l.live key now).all fun e => e.count < l.maxRequests := by
  unfold check live
  cases hlookup : l.entries.lookup key with
  | none => rfl
  | some e =>
    by_cases hlive : now < e.resetTimeMs
    · rw [Option.filter_some_pos (by simpa using hlive)]
      show (!(decide (now < e.resetTimeMs) && decide (l.maxRequests ≤ e.count))) =
        decide (e.count < l.maxRequests)
      rw [decide_eq_true hlive, Bool.true_and, ← decide_not, decide_eq_decide]
      omega
    · rw [Option.filter_some_neg (by simpa using hlive)]
      simp [hlive]

@[simp] theorem live_put_of_ne {other : String} (h : other ≠ key) :
    (l.put key e).live other now = l.live other now := by
  simp only [live, put, AList.lookup_insert_ne h]

theorem live_put : (l.put key e).live key now = if now < e.resetTimeMs then some e else none := by
  simp only [live, put, AList.lookup_insert, Option.filter_some, decide_eq_true_eq]

theorem live_cleanup (h : now ≤ later) : (l.cleanup now).live key later = l.live key later := by
  apply Option.ext
  intro e
  have hlt : later < e.resetTimeMs → now < e.resetTimeMs := fun h' => Nat.lt_of_le_of_lt h h'
  rw [live_eq_some, live_eq_some, cleanup, Dict.lookup_retain, Option.filter_eq_some_iff,
    decide_eq_true_eq]
  tauto

end RateLimiter

/-- A call of the limiter and what it finds on the clock. -/
inductive LimiterCall where
  | check (key : String) (now : ℕ)
  | checkAndIncrement (key : String) (now : ℕ)
  | recordAttempt (key : String) (now : ℕ)
  | cleanup (now : ℕ)

namespace LimiterCall

def now : LimiterCall → ℕ
  | check _ now | checkAndIncrement _ now | recordAttempt _ now | cleanup now => now

def key? : LimiterCall → Option String
  | check key _ | checkAndIncrement key _ | recordAttempt key _ => some key
  | cleanup _ => none

/-- The limiter after the call, and the verdict if the call gives one. -/
def call (l : RateLimiter) : LimiterCall → RateLimiter × Option Bool
  | check key now => (l, some (l.check key now))
  | checkAndIncrement key now =>
    ((l.checkAndIncrement key now).1, some (l.checkAndIncrement key now).2)
  | recordAttempt key now => (l.recordAttempt key now, none)
  | cleanup now => (l.cleanup now, none)

end LimiterCall

namespace RateLimiter

variable {l l' : RateLimiter} {key : String} {now : ℕ}

def verdicts (key : String) : RateLimiter → List LimiterCall → List Bool
  | _, [] => []
  | l, c :: calls =>
    let rest := verdicts key (c.call l).1 calls
    if c.key? = some key then (c.call l).2.toList ++ rest else rest

/-- The two limiters tell the key the same from now on. -/
structure Agree (key : String) (now : ℕ) (l l' : RateLimiter) : Prop where
  maxRequests : l.maxRequests = l'.maxRequests
  windowMs : l.windowMs = l'.windowMs
  live : l.live key now = l'.live key now

theorem Agree.refl : Agree key now l l := ⟨rfl, rfl, rfl⟩

section

variable (h : Agree key now l l')
include h

theorem Agree.symm : Agree key now l' l :=
  ⟨h.maxRequests.symm, h.windowMs.symm, h.live.symm⟩

theorem Agree.later {t : ℕ} (hnow : now ≤ t) : Agree key t l l' :=
  ⟨h.maxRequests, h.windowMs, by rw [live_later hnow, live_later hnow, h.live]⟩

theorem Agree.entry : l.entry key now = l'.entry key now := by
  rw [entry_eq, entry_eq, h.live, resetTime, resetTime, h.windowMs]

theorem Agree.put (e : RateLimitEntry) :
    Agree key now (l.put key e) (l'.put key e) :=
  ⟨h.maxRequests, h.windowMs, by rw [live_put, live_put]⟩

end

variable {c : LimiterCall}

/-- A call about the key gives the same verdict in both, and they still agree. -/
theorem Agree.call (h : Agree key c.now l l') (hkey : c.key? = some key) :
    Agree key c.now (c.call l).1 (c.call l').1 ∧ (c.call l).2 = (c.call l').2 := by
  cases c with
  | check k t =>
    obtain rfl := Option.some.inj hkey
    refine ⟨h, ?_⟩
    show some (l.check k t) = some (l'.check k t)
    have hlive : l.live k t = l'.live k t := h.live
    rw [check_eq, check_eq, h.maxRequests, hlive]
  | checkAndIncrement k t =>
    obtain rfl := Option.some.inj hkey
    have hentry : l.entry k t = l'.entry k t := Agree.entry h
    show Agree k t (l.checkAndIncrement k t).1 (l'.checkAndIncrement k t).1 ∧
      some (l.checkAndIncrement k t).2 = some (l'.checkAndIncrement k t).2
    simp only [checkAndIncrement, hentry, h.maxRequests]
    split
    · exact ⟨Agree.put h _, rfl⟩
    · exact ⟨Agree.put h _, rfl⟩
  | recordAttempt k t =>
    obtain rfl := Option.some.inj hkey
    have hentry : l.entry k t = l'.entry k t := Agree.entry h
    refine ⟨?_, rfl⟩
    show Agree k t (l.recordAttempt k t) (l'.recordAttempt k t)
    simp only [recordAttempt, hentry]
    exact Agree.put h _
  | cleanup t => cases hkey

/-- A call about another key, or a cleanup, changes nothing for this one. -/
theorem Agree.skip (h : Agree key c.now l l') (hkey : c.key? ≠ some key) :
    Agree key c.now (c.call l).1 l' := by
  have hput : ∀ (k : String) (e : RateLimitEntry), k ≠ key → Agree key c.now (l.put k e) l' :=
    fun k e hk => ⟨h.maxRequests, h.windowMs, (live_put_of_ne hk.symm).trans h.live⟩
  cases c with
  | check k t => exact h
  | checkAndIncrement k t =>
    have hk : k ≠ key := fun hk => hkey (hk ▸ rfl)
    show Agree key t (l.checkAndIncrement k t).1 l'
    simp only [checkAndIncrement]
    split
    · exact hput k _ hk
    · exact hput k _ hk
  | recordAttempt k t => exact hput k _ fun hk => hkey (hk ▸ rfl)
  | cleanup t => exact ⟨h.maxRequests, h.windowMs, (live_cleanup (Nat.le_refl t)).trans h.live⟩

/-- With a clock that does not go back, the key gets the verdicts that its own calls alone would
get, with any calls about other keys and any cleanups left out. -/
theorem verdicts_filter {keep : LimiterCall → Bool}
    (hkeep : ∀ c : LimiterCall, c.key? = some key → keep c = true) {calls : List LimiterCall} :
    ∀ {l l' : RateLimiter}, Agree key now l l' → (∀ c ∈ calls, now ≤ c.now) →
      calls.Pairwise (fun c c' => c.now ≤ c'.now) →
        verdicts key l calls = verdicts key l' (calls.filter keep) := by
  induction calls generalizing now with
  | nil => exact fun _ _ _ => rfl
  | cons c calls ih =>
    intro l l' h hnow hsorted
    obtain ⟨hlater, hsorted⟩ := List.pairwise_cons.mp hsorted
    have hc := h.later (hnow c List.mem_cons_self)
    by_cases hkey : c.key? = some key
    · obtain ⟨hagree, hverdict⟩ := hc.call hkey
      have hrest := ih hagree hlater hsorted
      simp only [List.filter_cons, hkeep c hkey, if_true, verdicts, hkey, hverdict, hrest]
    · by_cases hc' : keep c = true
      · -- a call that stays in both runs may still leave different entries of other keys
        have hagree : Agree key c.now (c.call l).1 (c.call l').1 := by
          have hskip := hc.skip hkey
          exact (hskip.symm.skip hkey).symm
        have hrest := ih hagree hlater hsorted
        simp only [List.filter_cons, hc', if_true, verdicts, hkey, if_false, hrest]
      · have hrest := ih (hc.skip hkey) hlater hsorted
        rw [List.filter_cons_of_neg hc']
        simp only [verdicts, hkey, if_false, hrest]

end RateLimiter

end AionCore.Auth
