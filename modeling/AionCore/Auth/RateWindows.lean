import AionCore.Auth.RateLimit

/-!
# Authentication: what the rate limits let through

Any number of requests of any keys through one limiter, with a clock that does not go back. A
limiter is either that of the auth middleware, which records the failures after the handler, or
that of one of the other two, which count what they admit.
-/

namespace AionCore.Auth

open RateLimiter

/-- The limiter with the requests of each key that are in the login handler, and for each key the
windows with the times of the requests counted in them. -/
structure LimiterWorld where
  limiter : RateLimiter
  auth : Bool
  clock : ℕ
  handling : List String
  windows : String → List Window

/-- A request that is dropped in the handler finishes like a success: nothing is recorded. -/
inductive LimiterStep where
  | request (key : String) (now : ℕ)
  | arrive (key : String) (now : ℕ)
  | finish (key : String) (success : Bool) (now : ℕ)
  | cleanup (now : ℕ)

namespace LimiterWorld

def of (limiter : RateLimiter) (auth : Bool) : LimiterWorld := ⟨limiter, auth, 0, [], fun _ => []⟩

def opens (w : LimiterWorld) (key : String) (now : ℕ) : List Window :=
  if w.limiter.live key now = none then ⟨now, []⟩ :: w.windows key else w.windows key

def fire (w : LimiterWorld) : LimiterStep → LimiterWorld
  | .request key now =>
    let (limiter, admitted) := w.limiter.checkAndIncrement key now
    let windows := if admitted then Window.record now (w.opens key now) else w.opens key now
    { w with limiter := limiter, clock := now, windows := Function.update w.windows key windows }
  | .arrive key now =>
    { w with
      clock := now
      handling := if w.limiter.check key now then key :: w.handling else w.handling }
  | .finish key success now =>
    let w' := { w with clock := now, handling := w.handling.erase key }
    if success then w'
    else
      let windows := Window.record now (w.opens key now)
      { w' with
        limiter := w.limiter.recordAttempt key now
        windows := Function.update w.windows key windows }
  | .cleanup now => { w with limiter := w.limiter.cleanup now, clock := now }

def machine : Machine LimiterWorld LimiterStep where
  start w := w.limiter.entries = ∅ ∧ w.handling = [] ∧ w.windows = fun _ => []
  admits w
    | .request _ now => w.auth = false ∧ w.clock ≤ now
    | .arrive _ now => w.auth = true ∧ w.clock ≤ now
    | .finish key _ now => key ∈ w.handling ∧ w.clock ≤ now
    | .cleanup now => w.clock ≤ now
  fire := fire

/-- A window has a length and an end in 64 bits; and a request that passes the check finds room for
its own failure beside the failures recorded and the requests that are in the handler. -/
def Room (w : LimiterWorld) : LimiterStep → Prop
  | .request _ now => 0 < w.limiter.windowMs ∧ now + w.limiter.windowMs < 2 ^ 64
  | .arrive key now => w.limiter.check key now = true →
      w.handling.count key + w.limiter.used key now < w.limiter.maxRequests
  | .finish _ success now => success = false →
      0 < w.limiter.windowMs ∧ now + w.limiter.windowMs < 2 ^ 64
  | .cleanup _ => True

instance decidableAdmits : ∀ w step, Decidable (machine.admits w step) := by
  intro w step
  cases step <;> (simp only [machine]; infer_instance)

instance decidableRoom : ∀ w step, Decidable (Room w step) := by
  intro w step
  cases step <;> (simp only [Room]; infer_instance)

/-- What the limits promise: in a window, in a span of its length wherever it begins, and that a
key's verdicts depend on the calls about this key alone. -/
structure Limits (w : LimiterWorld) : Prop where
  window : ∀ key, ∀ win ∈ w.windows key, win.times.length ≤ w.limiter.maxRequests
  span : ∀ key t,
    Window.spanCount w.limiter.windowMs t (w.windows key) ≤ 2 * w.limiter.maxRequests
  apart : ∀ key calls, (∀ c : LimiterCall, c ∈ calls → w.clock ≤ c.now) →
    calls.Pairwise (fun c c' : LimiterCall => c.now ≤ c'.now) →
      verdicts key w.limiter calls = verdicts key w.limiter (calls.filter (·.key? = some key))
  cleanup : ∀ key calls, (∀ c : LimiterCall, c ∈ calls → w.clock ≤ c.now) →
    calls.Pairwise (fun c c' : LimiterCall => c.now ≤ c'.now) →
      verdicts key w.limiter calls = verdicts key w.limiter (calls.filter (·.key?.isSome))

/-- The entry of a key that is live stands for the last window of the key; the requests in the
handler have room beside it. -/
structure KeyKept (l : RateLimiter) (key : String) (now pending : ℕ) (windows : List Window) :
    Prop where
  spaced : Window.Spaced l.windowMs windows
  full : ∀ win ∈ windows, win.times.length ≤ l.maxRequests
  idle : l.live key now = none → ∀ win ∈ windows, win.opened + l.windowMs ≤ now
  live : ∀ e, l.live key now = some e → ∃ win rest, windows = win :: rest ∧
    e = ⟨win.times.length, win.opened + l.windowMs⟩ ∧ win.opened ≤ now
  room : pending + l.used key now ≤ l.maxRequests

variable {l l' : RateLimiter} {key : String} {now t pending : ℕ} {windows rest : List Window}
  {win : Window}

theorem KeyKept.agree (h : KeyKept l key now pending windows) (hl : Agree key now l l') :
    KeyKept l' key now pending windows := by
  obtain ⟨hspaced, hfull, hidle, hlive, hroom⟩ := h
  rw [used, hl.live, hl.maxRequests] at hroom
  rw [hl.maxRequests] at hfull
  rw [hl.windowMs] at hspaced
  simp only [hl.live, hl.windowMs] at hidle hlive
  exact ⟨hspaced, hfull, hidle, hlive, hroom⟩

theorem used_later (h : now ≤ t) : l.used key t ≤ l.used key now := by
  rw [used, used, live_later h]
  cases l.live key now with
  | none => exact Nat.le_refl 0
  | some e =>
    rw [Option.filter_some]
    split
    · exact Nat.le_refl e.count
    · exact Nat.zero_le e.count

/-- As time passes a window may end, and no entry becomes live. -/
theorem KeyKept.later (h : KeyKept l key now pending windows) (hnow : now ≤ t) :
    KeyKept l key t pending windows := by
  refine ⟨h.spaced, h.full, fun hnone win hmem => ?_, fun e he => ?_, ?_⟩
  · cases hold : l.live key now with
    | none => exact Nat.le_trans (h.idle hold win hmem) hnow
    | some e =>
      -- the entry has run out, and with it the last window; the others were over before
      obtain ⟨last, rest, rfl, rfl, hopened⟩ := h.live e hold
      rw [live_later hnow, hold, Option.filter_eq_none_iff] at hnone
      have hover : last.opened + l.windowMs ≤ t := by simpa using hnone _ rfl
      obtain rfl | hmem := List.mem_cons.mp hmem
      · exact hover
      · have := h.spaced.over_of_le hopened win hmem
        omega
  · rw [live_later hnow, Option.filter_eq_some_iff] at he
    obtain ⟨last, rest, hwindows, hentry, hopened⟩ := h.live e he.1
    exact ⟨last, rest, hwindows, hentry, Nat.le_trans hopened hnow⟩
  · have hused : l.used key t ≤ l.used key now := used_later hnow
    have := h.room
    omega

/-- An entry put for a window that is open. -/
theorem KeyKept.of_open (hspaced : Window.Spaced l.windowMs (win :: rest))
    (hfull : ∀ other ∈ win :: rest, other.times.length ≤ l.maxRequests) (hopened : win.opened ≤ now)
    (hopen : now < win.opened + l.windowMs) (hroom : pending + win.times.length ≤ l.maxRequests) :
    KeyKept (l.put key ⟨win.times.length, win.opened + l.windowMs⟩) key now pending
      (win :: rest) := by
  have hlive : (l.put key ⟨win.times.length, win.opened + l.windowMs⟩).live key now =
      some ⟨win.times.length, win.opened + l.windowMs⟩ := by
    rw [live_put, if_pos hopen]
  refine ⟨hspaced, hfull, fun hnone => ?_, fun e he => ⟨win, rest, rfl, ?_, hopened⟩, ?_⟩
  · rw [hlive] at hnone
    cases hnone
  · rw [hlive] at he
    exact (Option.some.inj he).symm
  · rw [used, hlive]
    exact hroom

/-- The entry that a call finds or makes stands for the window that is then open. -/
theorem KeyKept.opens {w : LimiterWorld} (h : KeyKept w.limiter key now pending (w.windows key))
    (hlength : 0 < w.limiter.windowMs) (hfits : now + w.limiter.windowMs < 2 ^ 64) :
    ∃ win rest, w.opens key now = win :: rest ∧
      w.limiter.entry key now = ⟨win.times.length, win.opened + w.limiter.windowMs⟩ ∧
      Window.Spaced w.limiter.windowMs (win :: rest) ∧
      (∀ other ∈ win :: rest, other.times.length ≤ w.limiter.maxRequests) ∧
      win.opened ≤ now ∧ now < win.opened + w.limiter.windowMs ∧
      win.times.length = w.limiter.used key now := by
  cases hlive : w.limiter.live key now with
  | none =>
    have hused : w.limiter.used key now = 0 := by rw [used, hlive]; rfl
    -- a window opens with this call
    refine ⟨⟨now, []⟩, w.windows key, by rw [LimiterWorld.opens, if_pos hlive], ?_, ?_, ?_,
      Nat.le_refl now, by show now < now + _; omega, hused.symm⟩
    · rw [entry_eq, hlive, Option.getD_none, resetTime, Nat.mod_eq_of_lt hfits]
      rfl
    · exact h.spaced.opens (h.idle hlive) fun time htime => (by cases htime)
    · intro other hmem
      obtain rfl | hmem := List.mem_cons.mp hmem
      · exact Nat.zero_le _
      · exact h.full other hmem
  | some e =>
    obtain ⟨win, rest, hwindows, rfl, hopened⟩ := h.live e hlive
    have hopen := (live_eq_some.mp hlive).2
    have hsame : w.opens key now = win :: rest := by
      rw [LimiterWorld.opens, if_neg (by rw [hlive]; intro hnone; cases hnone), hwindows]
    refine ⟨win, rest, hsame, by rw [entry_eq, hlive, Option.getD_some], hwindows ▸ h.spaced,
      hwindows ▸ h.full, hopened, hopen, ?_⟩
    rw [used, hlive]
    rfl

/-- One more request is counted in the window that is open. -/
theorem KeyKept.count (hspaced : Window.Spaced l.windowMs (win :: rest))
    (hfull : ∀ other ∈ win :: rest, other.times.length ≤ l.maxRequests) (hopened : win.opened ≤ now)
    (hopen : now < win.opened + l.windowMs)
    (hroom : pending + (win.times.length + 1) ≤ l.maxRequests) :
    KeyKept (l.put key ⟨win.times.length + 1, win.opened + l.windowMs⟩) key now pending
      (Window.record now (win :: rest)) := by
  have hlength : (win.times ++ [now]).length = win.times.length + 1 := by simp
  have hcounted : ∀ other ∈ Window.record now (win :: rest),
      other.times.length ≤ l.maxRequests := by
    intro other hmem
    obtain rfl | hmem := List.mem_cons.mp hmem
    · show (win.times ++ [now]).length ≤ l.maxRequests
      omega
    · exact hfull other (List.mem_cons_of_mem _ hmem)
  rw [← hlength]
  exact KeyKept.of_open (hspaced.record hopened hopen) hcounted hopened hopen (hlength ▸ hroom)

variable {w : LimiterWorld} {i : LimiterStep}

/-- Every key is kept, and only the auth middleware has requests in the login handler. -/
structure Kept (w : LimiterWorld) : Prop where
  keys : ∀ key, KeyKept w.limiter key w.clock (w.handling.count key) (w.windows key)
  counted : w.auth = false → w.handling = []

theorem kept_start (h : machine.start w) : w.Kept := by
  obtain ⟨hentries, hhandling, hwindows⟩ := h
  refine ⟨fun key => ?_, fun _ => hhandling⟩
  have hlive : w.limiter.live key w.clock = none := by rw [live, hentries]; rfl
  rw [hwindows, hhandling]
  refine ⟨.nil, fun win hmem => (by cases hmem), fun _ win hmem => (by cases hmem),
    fun e he => ?_, ?_⟩
  · rw [hlive] at he
    cases he
  · rw [used, hlive]
    exact Nat.zero_le _

section

variable (h : w.Kept)
include h

theorem Kept.other {c : LimiterCall} {other : String} (hc : w.clock ≤ c.now)
    (hkey : c.key? ≠ some other) :
    KeyKept (c.call w.limiter).1 other c.now (w.handling.count other) (w.windows other) :=
  ((h.keys other).later hc).agree ((Agree.refl (l := w.limiter)).skip hkey).symm

theorem Kept.request (hauth : w.auth = false) (hnow : w.clock ≤ now)
    (hlength : 0 < w.limiter.windowMs) (hfits : now + w.limiter.windowMs < 2 ^ 64) :
    (w.fire (.request key now)).Kept := by
  refine ⟨fun other => ?_, h.counted⟩
  by_cases hother : other = key
  · subst hother
    have hkey := (h.keys other).later hnow
    obtain ⟨win, rest, hopens, hentry, hspaced, hfull, hopened, hopen, hused⟩ :=
      hkey.opens hlength hfits
    have hroom := hkey.room
    rw [h.counted hauth, ← hused] at hroom
    simp only [LimiterWorld.fire, checkAndIncrement, hentry, Function.update_self, h.counted hauth]
    split
    · rw [if_neg Bool.false_ne_true, hopens]
      exact KeyKept.of_open hspaced hfull hopened hopen hroom
    · rename_i hcount
      rw [if_pos rfl, hopens]
      refine KeyKept.count hspaced hfull hopened hopen ?_
      rw [List.count_nil]
      omega
  · simp only [LimiterWorld.fire, Function.update_of_ne hother]
    have hkey : (LimiterCall.checkAndIncrement key now).key? ≠ some other := fun hkey =>
      hother (Option.some.inj hkey).symm
    exact h.other (c := .checkAndIncrement key now) hnow hkey

/-- A request that passes the check takes room for its failure. -/
theorem Kept.arrive (hauth : w.auth = true) (hnow : w.clock ≤ now)
    (hroom : w.limiter.check key now = true →
      w.handling.count key + w.limiter.used key now < w.limiter.maxRequests) :
    (w.fire (.arrive key now)).Kept := by
  refine ⟨fun other => ?_, fun hcounted => ?_⟩
  · have hkey := (h.keys other).later hnow
    refine ⟨hkey.spaced, hkey.full, hkey.idle, hkey.live, ?_⟩
    have hother := hkey.room
    show (if w.limiter.check key now then key :: w.handling else w.handling).count other +
      w.limiter.used other now ≤ w.limiter.maxRequests
    split
    · -- one more request is in the handler
      rename_i hpass
      have := hroom hpass
      rw [List.count_cons]
      split
      · rename_i heq
        obtain rfl := beq_iff_eq.mp heq
        omega
      · omega
    · exact hother
  · exact absurd (hauth.symm.trans hcounted) (by decide)

/-- A failure is recorded in the room that its request took. -/
theorem Kept.fail (hkey : key ∈ w.handling) (hnow : w.clock ≤ now)
    (hlength : 0 < w.limiter.windowMs) (hfits : now + w.limiter.windowMs < 2 ^ 64) :
    (w.fire (.finish key false now)).Kept := by
  refine ⟨fun other => ?_, fun hcounted => ?_⟩
  · by_cases hother : other = key
    · subst hother
      have hkept := (h.keys other).later hnow
      obtain ⟨win, rest, hopens, hentry, hspaced, hfull, hopened, hopen, hused⟩ :=
        hkept.opens hlength hfits
      have hroom := hkept.room
      have hpending : 0 < w.handling.count other := List.count_pos_iff.mpr hkey
      have hfits32 : win.times.length + 1 < 2 ^ 32 := by
        have := w.limiter.fits
        omega
      simp only [LimiterWorld.fire, recordAttempt, hentry, Function.update_self, Bool.false_eq_true,
        if_false, hopens, Nat.mod_eq_of_lt hfits32, List.count_erase_self]
      exact KeyKept.count hspaced hfull hopened hopen (by omega)
    · simp only [LimiterWorld.fire, Function.update_of_ne hother, Bool.false_eq_true, if_false,
        List.count_erase_of_ne hother]
      have hkey : (LimiterCall.recordAttempt key now).key? ≠ some other := fun hkey =>
        hother (Option.some.inj hkey).symm
      exact h.other (c := .recordAttempt key now) hnow hkey
  · rw [h.counted hcounted] at hkey
    cases hkey

theorem Kept.succeed (hnow : w.clock ≤ now) :
    (w.fire (.finish key true now)).Kept := by
  refine ⟨fun other => ?_, fun hcounted => ?_⟩
  · have hkey := (h.keys other).later hnow
    refine ⟨hkey.spaced, hkey.full, hkey.idle, hkey.live, ?_⟩
    have hroom := hkey.room
    have hless : (w.handling.erase key).count other ≤ w.handling.count other :=
      List.erase_sublist.count_le other
    show (w.handling.erase key).count other + w.limiter.used other now ≤ w.limiter.maxRequests
    omega
  · show w.handling.erase key = []
    rw [h.counted hcounted]
    rfl

theorem Kept.step (hstep : machine.admits w i) (hroom : Room w i) :
    (w.fire i).Kept := by
  cases i with
  | request key now => exact h.request hstep.1 hstep.2 hroom.1 hroom.2
  | arrive key now => exact h.arrive hstep.1 hstep.2 hroom
  | finish key success now =>
    cases success with
    | false => exact h.fail hstep.1 hstep.2 (hroom rfl).1 (hroom rfl).2
    | true => exact h.succeed hstep.2
  | cleanup now =>
    refine ⟨fun other => ?_, h.counted⟩
    exact h.other (c := .cleanup now) hstep fun hkey => (by cases hkey)

theorem Kept.limits : w.Limits where
  window key win hmem := (h.keys key).full win hmem
  span key t := (h.keys key).spaced.spanCount_le (h.keys key).full t
  apart key calls hnow hsorted :=
    verdicts_filter (fun c hc => decide_eq_true hc) .refl hnow hsorted
  cleanup key calls hnow hsorted :=
    verdicts_filter (fun c hc => by rw [hc]; rfl) .refl hnow hsorted

end

/-- The limits hold in every run in which a request passes the check only while there is room for
its failure. -/
theorem limits_hold (h : (machine.restrict Room).Reachable w) : w.Limits :=
  (h.invariant (M := machine.restrict Room) (fun _ hs => kept_start hs)
    fun _ _ hs hi => hs.step hi.1 hi.2).limits

/-- Two logins, one after the other, one key; and one for another key in between. -/
theorem limits_hold_after_failures :
    (machine.run (.of (.new 1 1000 (by decide)) true) [.arrive "a" 5, .arrive "b" 6,
      .finish "a" false 7, .arrive "a" 8, .cleanup 9, .finish "b" true 1007, .arrive "a" 1008,
      .finish "a" false 1009]).Limits :=
  limits_hold (Machine.reachable_run ⟨rfl, rfl, rfl⟩ (by decide +kernel))

def burst : List LimiterStep :=
  List.replicate 6 (.arrive "a" 5) ++ List.replicate 6 (.finish "a" false 7)

theorem six_of_five_fail : ¬∀ w, machine.Reachable w → w.Limits := by
  intro h
  have hlimits := h (machine.run (.of .auth true) burst)
    (Machine.reachable_run ⟨rfl, rfl, rfl⟩ (by decide +kernel))
  have hwindow := hlimits.window "a" ⟨7, List.replicate 6 7⟩ (by decide +kernel)
  exact absurd hwindow (by decide +kernel)

end LimiterWorld

end AionCore.Auth
