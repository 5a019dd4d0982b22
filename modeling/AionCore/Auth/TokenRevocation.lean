import AionCore.Auth.Jwt
import AionCore.Lib.Machine

/-!
# Authentication: revoked tokens

Any sequence of calls of one `JwtService` with a clock that does not go back. Rotations draw their
secrets from a supply that never repeats.
-/

namespace AionCore.Auth

variable {Token Digest : Type*} [DecidableEq Digest]

/-- The service with its history: the tokens it signed under the current secret, the ones signed
under earlier secrets, and the ones that were blacklisted. -/
structure TokenWorld (Token Digest : Type*) where
  service : JwtService Digest
  secrets : Supply String
  drawn : ℕ
  clock : ℕ
  signed : List (Token × TokenPayload)
  outdated : List Token
  revoked : List Token

inductive TokenCall (Token : Type*) where
  | sign (userId username : String) (now : ℕ)
  | verify (token : Token) (now : ℕ)
  | blacklist (token : Token) (now : ℕ)
  | cleanup (now : ℕ)
  | rotate

namespace TokenWorld

def start (secret : String) (secrets : Supply String) : TokenWorld Token Digest :=
  ⟨.new secret, secrets, 0, 0, [], [], []⟩

variable (lib : JwtLib Token Digest)

def fire (w : TokenWorld Token Digest) : TokenCall Token → TokenWorld Token Digest
  | .sign userId username now =>
    let token := w.service.sign lib now userId username
    { w with
      clock := now
      signed := w.signed ++ [(token, JwtService.claims userId username now)] }
  | .verify _ now => { w with clock := now }
  | .blacklist token now =>
    { w with
      clock := now
      service := w.service.blacklistToken lib token now
      revoked := w.revoked ++ [token] }
  | .cleanup now => { w with clock := now, service := w.service.cleanupBlacklist now }
  | .rotate =>
    { w with
      service := w.service.rotateSecret (w.secrets.draw w.drawn)
      drawn := w.drawn + 1
      signed := []
      outdated := w.outdated ++ w.signed.map Prod.fst }

/-- The clock does not go back, and the first secret is none that a rotation draws. -/
def machine : Machine (TokenWorld Token Digest) (TokenCall Token) where
  start w := w = start w.service.secret w.secrets ∧ ∀ n, w.secrets.draw n ≠ w.service.secret
  admits w
    | .sign _ _ now | .verify _ now | .blacklist _ now | .cleanup now => w.clock ≤ now
    | .rotate => True
  fire := fire lib

/-- What is dropped from the blacklist is no longer accepted: at a cleanup a token whose entry is
over, at a rotation all, under the new secret. -/
def Timely (w : TokenWorld Token Digest) : TokenCall Token → Prop
  | .cleanup now => ∀ token ∈ w.revoked, JwtService.accepts lib w.service.secret token now = true →
      (w.service.blacklist.lookup (lib.tokenHash token)).any (fun exp => now < exp) = true
  | .rotate => ∀ token ∈ w.revoked,
      JwtService.accepts lib (w.secrets.draw w.drawn) token w.clock = false
  | _ => True

instance decidableAdmits : ∀ (w : TokenWorld Token Digest) call,
    Decidable ((machine lib).admits w call) := by
  intro w call
  cases call <;> (simp only [machine]; infer_instance)

instance decidableTimely : ∀ (w : TokenWorld Token Digest) call,
    Decidable (Timely lib w call) := by
  intro w call
  cases call <;> (simp only [Timely]; infer_instance)

/-- A token that was blacklisted or outdated by a rotation is never let in again; one signed under
the current secret is, until it expires, if it was not blacklisted. -/
structure Sound (w : TokenWorld Token Digest) : Prop where
  revoked : ∀ token ∈ w.revoked, w.service.Dead lib w.clock token
  outdated : ∀ token ∈ w.outdated, w.service.Dead lib w.clock token
  valid : ∀ token claims, (token, claims) ∈ w.signed → token ∉ w.revoked →
    ∀ now, w.clock ≤ now → now ≤ claims.exp → w.service.verify lib token now = .ok claims

variable {lib} {w : TokenWorld Token Digest} {call : TokenCall Token}

/-- Tokens come from `sign`, under the current secret or an earlier one; secrets do not come back;
and what is blacklisted was handed to `blacklist_token`. -/
structure Recorded (lib : JwtLib Token Digest) (w : TokenWorld Token Digest) : Prop where
  signed : ∀ token claims, (token, claims) ∈ w.signed → ∃ userId username t,
    token = w.service.sign lib t userId username ∧ claims = JwtService.claims userId username t
  outdated : ∀ token ∈ w.outdated, ∃ s : JwtService Digest, ∃ userId username t,
    token = s.sign lib t userId username ∧ w.service.secret ≠ s.secret ∧
      ∀ n, w.drawn ≤ n → w.secrets.draw n ≠ s.secret
  unused : ∀ n, w.drawn ≤ n → w.secrets.draw n ≠ w.service.secret
  listed : ∀ digest exp, w.service.blacklist.lookup digest = some exp →
    ∃ token ∈ w.revoked, lib.tokenHash token = digest

theorem recorded_start (h : (machine lib).start w) : w.Recorded lib := by
  obtain ⟨hstart, hdraw⟩ := h
  rw [hstart]
  exact ⟨fun token claims hmem => (by cases hmem), fun token hmem => (by cases hmem),
    fun n _ => hdraw n, fun digest exp hlookup => (by cases hlookup)⟩

theorem Recorded.rotate (h : w.Recorded lib) : (w.fire lib .rotate).Recorded lib := by
  have hfresh : ∀ n, w.drawn + 1 ≤ n → w.secrets.draw n ≠ w.secrets.draw w.drawn :=
    fun n hn => (w.secrets.drawn_draw hn).ne_draw.symm
  refine ⟨fun token claims hmem => (by cases hmem), fun token hmem => ?_, hfresh,
    fun digest exp hlookup => (by cases hlookup)⟩
  obtain hold | hnew := List.mem_append.mp hmem
  · obtain ⟨s, userId, username, t, htoken, -, hunused⟩ := h.outdated token hold
    exact ⟨s, userId, username, t, htoken, hunused w.drawn (Nat.le_refl _),
      fun n hn => hunused n (Nat.le_of_succ_le hn)⟩
  · -- a token of the secret in use becomes one of an earlier secret
    obtain ⟨⟨token', claims⟩, hsigned, rfl⟩ := List.mem_map.mp hnew
    obtain ⟨userId, username, t, htoken, -⟩ := h.signed token' claims hsigned
    exact ⟨w.service, userId, username, t, htoken, h.unused w.drawn (Nat.le_refl _),
      fun n hn => h.unused n (Nat.le_of_succ_le hn)⟩

theorem Recorded.fire (h : w.Recorded lib) (call : TokenCall Token) :
    (w.fire lib call).Recorded lib := by
  cases call with
  | sign userId username now =>
    refine ⟨fun token claims hmem => ?_, h.outdated, h.unused, h.listed⟩
    obtain hold | hnew := List.mem_append.mp hmem
    · exact h.signed token claims hold
    · obtain ⟨rfl, rfl⟩ := Prod.mk.inj (List.mem_singleton.mp hnew)
      exact ⟨userId, username, now, rfl, rfl⟩
  | verify token now => exact ⟨h.signed, h.outdated, h.unused, h.listed⟩
  | blacklist token now =>
    refine ⟨h.signed, h.outdated, h.unused, fun digest exp hlookup => ?_⟩
    have hlookup : AList.lookup digest (w.service.blacklist.insert (lib.tokenHash token) _) =
      some exp := hlookup
    rw [Dict.lookup_insert'] at hlookup
    split at hlookup
    · rename_i hdigest
      exact ⟨token, List.mem_append_right _ (List.mem_singleton_self _), hdigest.symm⟩
    · obtain ⟨token', hmem, hdigest⟩ := h.listed digest exp hlookup
      exact ⟨token', List.mem_append_left _ hmem, hdigest⟩
  | cleanup now =>
    refine ⟨h.signed, h.outdated, h.unused, fun digest exp hlookup => ?_⟩
    have hlookup : (w.service.blacklist.retain _).lookup digest = some exp := hlookup
    rw [Dict.lookup_retain, Option.filter_eq_some_iff] at hlookup
    exact h.listed digest exp hlookup.1
  | rotate => exact h.rotate

theorem recorded_of_reachable (h : (machine lib).Reachable w) : w.Recorded lib :=
  h.invariant (P := fun w => w.Recorded lib) (fun _ hs => recorded_start hs)
    fun _ call hs _ => hs.fire call

variable {token : Token}

theorem Recorded.outdated_dead (h : w.Recorded lib) (hmem : token ∈ w.outdated) :
    w.service.Dead lib w.clock token := by
  obtain ⟨s, userId, username, t, rfl, hne, -⟩ := h.outdated token hmem
  exact JwtService.dead_iff.mpr (.inr (JwtService.not_accepts_other hne))

variable {now : ℕ}

/-- A token of the current secret is let in until it expires, if it was not blacklisted. -/
theorem Recorded.valid (h : w.Recorded lib) {claims : TokenPayload}
    (hsigned : (token, claims) ∈ w.signed) (hkept : token ∉ w.revoked) (hnow : now ≤ claims.exp) :
    w.service.verify lib token now = .ok claims := by
  obtain ⟨userId, username, t, rfl, rfl⟩ := h.signed token claims hsigned
  refine JwtService.verify_eq_ok.mpr ⟨?_, JwtService.decode_sign hnow⟩
  cases hlookup : w.service.blacklist.lookup
    (lib.tokenHash (w.service.sign lib t userId username)) with
  | none => rfl
  | some exp =>
    obtain ⟨token', hrevoked, hhash⟩ := h.listed _ _ hlookup
    exact absurd (lib.hash_injective hhash ▸ hrevoked) hkept

theorem sound_iff (h : w.Recorded lib) :
    w.Sound lib ↔ ∀ token ∈ w.revoked, w.service.Dead lib w.clock token :=
  ⟨Sound.revoked, fun hrevoked => ⟨hrevoked, fun _ hmem => h.outdated_dead hmem,
    fun _ _ hsigned hkept _ _ hexp => h.valid hsigned hkept hexp⟩⟩

variable {s : JwtService Digest}

theorem dead_later {t : ℕ} (h : s.Dead lib now token) (hnow : now ≤ t) :
    s.Dead lib t token := fun t' claims ht' =>
  h t' claims (Nat.le_trans hnow ht')

/-- A token that is blacklisted is dead, and those that are dead stay so. -/
theorem dead_blacklist {token other : Token} (h : other = token ∨ s.Dead lib now other) :
    (s.blacklistToken lib token now).Dead lib now other := by
  rw [JwtService.dead_iff]
  have hlookup : (s.blacklistToken lib token now).blacklist.lookup (lib.tokenHash other) =
      if lib.tokenHash other = lib.tokenHash token then
        some ((s.extractExpiry lib token now).getD (now + tokenExpiry))
      else s.blacklist.lookup (lib.tokenHash other) := Dict.lookup_insert' _ _ _ _
  rw [hlookup]
  split
  · exact .inl (by simp)
  · rename_i hne
    obtain rfl | hdead := h
    · exact absurd rfl hne
    · exact JwtService.dead_iff.mp hdead

/-- A cleanup keeps a token dead exactly if the token is not accepted or its entry is kept. -/
theorem dead_cleanup :
    (s.cleanupBlacklist now).Dead lib now token ↔
      (JwtService.accepts lib s.secret token now = true →
        (s.blacklist.lookup (lib.tokenHash token)).any (fun exp => now < exp) = true) := by
  rw [JwtService.dead_iff]
  have hlookup : (s.cleanupBlacklist now).blacklist.lookup (lib.tokenHash token) =
      (s.blacklist.lookup (lib.tokenHash token)).filter fun exp => now < exp :=
    Dict.lookup_retain _ _ _
  have hkept : (s.blacklist.lookup (lib.tokenHash token)).filter (fun exp => now < exp) ≠ none ↔
      (s.blacklist.lookup (lib.tokenHash token)).any (fun exp => now < exp) = true := by
    rw [← Option.isSome_iff_ne_none, Option.isSome_filter]
  rw [hlookup, hkept]
  show _ ∨ JwtService.accepts lib s.secret token now = false ↔ _
  cases JwtService.accepts lib s.secret token now with
  | false => simp
  | true => simp

/-- A call leaves all as promised exactly if it is timely. -/
theorem Sound.step (hrecorded : w.Recorded lib) (h : w.Sound lib)
    (hcall : (machine lib).admits w call) :
    (w.fire lib call).Sound lib ↔ w.Timely lib call := by
  rw [sound_iff (hrecorded.fire call)]
  cases call with
  | sign userId username now | verify token now =>
    exact ⟨fun _ => trivial, fun _ token hmem => dead_later (h.revoked token hmem) hcall⟩
  | blacklist token now =>
    refine ⟨fun _ => trivial, fun _ other hmem => ?_⟩
    obtain hold | hnew := List.mem_append.mp hmem
    · exact dead_blacklist (.inr (dead_later (h.revoked other hold) hcall))
    · exact dead_blacklist (.inl (List.mem_singleton.mp hnew))
  | cleanup now => exact forall₂_congr fun token _ => dead_cleanup
  | rotate =>
    refine forall₂_congr fun token _ => ?_
    rw [JwtService.dead_iff]
    constructor
    · rintro (hlisted | hdead)
      · exact absurd rfl hlisted
      · exact hdead
    · exact .inr

/-- As long as what is dropped from the blacklist is no longer accepted, revoked tokens stay
revoked; and the next call keeps that exactly if it is such a call. -/
theorem revoked_tokens_stay_revoked (h : ((machine lib).restrict (Timely lib)).Reachable w) :
    w.Sound lib ∧ ∀ call, (machine lib).admits w call →
      ((w.fire lib call).Sound lib ↔ w.Timely lib call) :=
  h.exact (M := machine lib)
    (fun _ hs => (sound_iff (recorded_start hs)).mpr fun token hmem => by
      rw [hs.1] at hmem
      cases hmem)
    fun _ _ hr hs hi => hs.step (recorded_of_reachable hr) hi

theorem start_tally : (machine .plain).start (start "" .tally) := ⟨rfl, Supply.tally_ne_empty⟩

/-- A login that is logged out an hour later; a cleanup a minute and a second after its expiry, and
a rotation with another login. -/
theorem logged_out_token_stays_revoked :
    ((machine .plain).run (start "" .tally)
      [.sign "u" "ada" 0, .verify ("", JwtService.claims "u" "ada" 0) 10,
        .blacklist ("", JwtService.claims "u" "ada" 0) 3600, .cleanup 86461, .rotate,
        .sign "u" "ada" 86500]).Sound .plain :=
  (revoked_tokens_stay_revoked (Machine.reachable_run start_tally (by decide +kernel))).1

/-- A token is blacklisted, and its entry dropped at the second in which it expires. -/
theorem logged_out_token_let_in_again :
    ¬∀ w, (machine .plain).Reachable w → w.Sound .plain := by
  intro h
  let token := ("", JwtService.claims "u" "ada" 0)
  have hsound := h (Machine.run (machine .plain) (start "" .tally)
    [.sign "u" "ada" 0, .blacklist token 10, .cleanup 86400])
    (Machine.reachable_run start_tally (by decide +kernel))
  exact hsound.revoked token (by decide +kernel) 86460 token.2 (by decide +kernel)
    (by decide +kernel)

end TokenWorld

end AionCore.Auth
