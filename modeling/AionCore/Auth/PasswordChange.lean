import AionCore.Auth.Jwt
import AionCore.Lib.Machine

/-!
# Authentication: password changes and sessions

The requests of `routes.rs` that read or write the password of one user, or sign his tokens, each
split at its awaits, with restarts in between that drop them. A request that is refused before it
reads the user's row changes nothing and is left out.
-/

namespace AionCore.Auth

/-- A login that has read the user's row: the password it was given, the hash it will check, and how
many times the password had been written by then. -/
structure LoginAttempt where
  password : String
  passwordHash : String
  version : ℕ
  deriving DecidableEq

/-- How far `change_password_handler` has come: it has read the row, has written the new password,
or has also rotated the secret. -/
inductive PasswordUpdate where
  | read (currentPassword passwordHash : String)
  | written (version : ℕ)
  | rotated (version : ℕ) (newSecret : String)
  deriving DecidableEq

def PasswordUpdate.rotatedFor : PasswordUpdate → Option ℕ
  | .rotated version _ => some version
  | _ => none

/-- A token with the secret it was signed under and the version of the password that was checked
for it, by the login itself or by the one whose token was refreshed. -/
structure IssuedToken (Token : Type*) where
  token : Token
  secret : String
  version : ℕ
  deriving DecidableEq

/-- The service, what the database holds of the secret and of the user, the requests under way, and
as history the tokens issued and the last version of the password that a request has reported. -/
structure PasswordWorld (Token Digest : Type*) where
  service : JwtService Digest
  stored : Option String
  secrets : Supply String
  drawn : ℕ
  userId : String
  username : String
  isSystemUser : Bool
  passwordHash : String
  version : ℕ
  logins : List LoginAttempt
  updates : List PasswordUpdate
  issued : List (IssuedToken Token)
  changed : ℕ

inductive PasswordStep (Token : Type*) where
  | login (username password : String)
  | signIn (attempt : LoginAttempt) (now : ℕ)
  | refresh (parent : IssuedToken Token) (now : ℕ)
  | changePassword (currentPassword : String)
  | updatePassword (currentPassword passwordHash newHash : String) (ok : Bool)
  | rotateSecret (version : ℕ)
  | updateJwtSecret (version : ℕ) (newSecret : String) (ok : Bool)
  | webuiChangePassword (newHash : String)
  | webuiResetPassword (newHash : String)
  | restart

namespace PasswordWorld

variable {Token Digest : Type*} (lib : JwtLib Token Digest)
  (verifyPassword : String → String → Bool)

def boot (secret : String) (secrets : Supply String) (userId username passwordHash : String)
    (isSystemUser : Bool) : PasswordWorld Token Digest :=
  { service := .new secret, stored := some secret, secrets := secrets, drawn := 0
    userId := userId, username := username, isSystemUser := isSystemUser
    passwordHash := passwordHash, version := 0, logins := [], updates := [], issued := []
    changed := 0 }

def isBlank (s : String) : Bool := s.toList.all Char.isWhitespace

/-- The user's row is read. -/
def login (w : PasswordWorld Token Digest) (username password : String) :
    PasswordWorld Token Digest :=
  if 32 < username.utf8ByteSize || 128 < password.utf8ByteSize then w
  else if username = w.username then
    { w with logins := w.logins ++ [⟨password, w.passwordHash, w.version⟩] }
  else w

def signsIn (attempt : LoginAttempt) : Bool :=
  !isBlank attempt.passwordHash && verifyPassword attempt.password attempt.passwordHash

def issue (w : PasswordWorld Token Digest) (userId username : String) (version now : ℕ) :
    PasswordWorld Token Digest :=
  { w with
    issued := w.issued ++
      [⟨w.service.sign lib now userId username, w.service.secret, version⟩] }

/-- The password is checked, and the token is signed without another await. -/
def signIn (w : PasswordWorld Token Digest) (attempt : LoginAttempt) (now : ℕ) :
    PasswordWorld Token Digest :=
  let w := { w with logins := w.logins.erase attempt }
  if signsIn verifyPassword attempt then w.issue lib w.userId w.username attempt.version now else w

def refresh [DecidableEq Digest] (w : PasswordWorld Token Digest) (parent : IssuedToken Token)
    (now : ℕ) : PasswordWorld Token Digest :=
  match w.service.verify lib parent.token now with
  | .ok payload => w.issue lib payload.userId payload.username parent.version now
  | .error _ => w

def writePassword (w : PasswordWorld Token Digest) (newHash : String) : PasswordWorld Token Digest :=
  { w with passwordHash := newHash, version := w.version + 1 }

/-- The current password is checked and the new one is written. -/
def updatePassword (w : PasswordWorld Token Digest) (currentPassword passwordHash newHash : String)
    (ok : Bool) : PasswordWorld Token Digest :=
  let w := { w with updates := w.updates.erase (.read currentPassword passwordHash) }
  if verifyPassword currentPassword passwordHash && ok then
    { w.writePassword newHash with updates := w.updates ++ [.written (w.version + 1)] }
  else w

def rotateSecret (w : PasswordWorld Token Digest) (version : ℕ) : PasswordWorld Token Digest :=
  let newSecret := w.secrets.draw w.drawn
  { w with
    service := w.service.rotateSecret newSecret
    drawn := w.drawn + 1
    updates := w.updates.erase (.written version) ++ [.rotated version newSecret] }

def storedAfter (w : PasswordWorld Token Digest) (newSecret : String) : Option String :=
  if w.isSystemUser then some newSecret else w.stored

/-- The new secret is stored, and success reported. -/
def updateJwtSecret (w : PasswordWorld Token Digest) (version : ℕ) (newSecret : String) (ok : Bool) :
    PasswordWorld Token Digest :=
  let w := { w with updates := w.updates.erase (.rotated version newSecret) }
  if ok then { w with stored := w.storedAfter newSecret, changed := max w.changed version } else w

def webuiSetPassword (w : PasswordWorld Token Digest) (newHash : String) :
    PasswordWorld Token Digest :=
  { w.writePassword newHash with changed := w.version + 1 }

def webuiChangePassword (w : PasswordWorld Token Digest) (newHash : String) :
    PasswordWorld Token Digest := w.webuiSetPassword newHash

def webuiResetPassword (w : PasswordWorld Token Digest) (newHash : String) :
    PasswordWorld Token Digest := w.webuiSetPassword newHash

/-- The requests are dropped and the secret is loaded; a new one is stored. -/
def restart (w : PasswordWorld Token Digest) : PasswordWorld Token Digest :=
  let (secret, isNew) :=
    resolveJwtSecret none (w.stored.filter (· ≠ "")) (w.secrets.draw w.drawn)
  { w with
    service := .new secret
    stored := if isNew then some secret else w.stored
    drawn := if isNew then w.drawn + 1 else w.drawn
    logins := []
    updates := [] }

def fire [DecidableEq Digest] (w : PasswordWorld Token Digest) :
    PasswordStep Token → PasswordWorld Token Digest
  | .login username password => w.login username password
  | .signIn attempt now => w.signIn lib verifyPassword attempt now
  | .refresh parent now => w.refresh lib parent now
  | .changePassword currentPassword =>
    { w with updates := w.updates ++ [.read currentPassword w.passwordHash] }
  | .updatePassword currentPassword passwordHash newHash ok =>
    w.updatePassword verifyPassword currentPassword passwordHash newHash ok
  | .rotateSecret version => w.rotateSecret version
  | .updateJwtSecret version newSecret ok => w.updateJwtSecret version newSecret ok
  | .webuiChangePassword newHash => w.webuiChangePassword newHash
  | .webuiResetPassword newHash => w.webuiResetPassword newHash
  | .restart => w.restart

/-- Requests take their steps in any order. The first secret is none that is drawn later, and a
token that is refreshed was issued. -/
def machine [DecidableEq Digest] :
    Machine (PasswordWorld Token Digest) (PasswordStep Token) where
  start w := w = boot w.service.secret w.secrets w.userId w.username w.passwordHash w.isSystemUser ∧
    ∀ n, w.secrets.draw n ≠ w.service.secret
  admits w
    | .signIn attempt _ => attempt ∈ w.logins
    | .refresh parent _ => parent ∈ w.issued
    | .updatePassword currentPassword passwordHash _ _ =>
      .read currentPassword passwordHash ∈ w.updates
    | .rotateSecret version => .written version ∈ w.updates
    | .updateJwtSecret version newSecret _ => .rotated version newSecret ∈ w.updates
    | _ => True
  fire := fire lib verifyPassword

/-- A token is signed for a login only if no later password was reported as changed and no update
that wrote a later one has rotated the secret; and when an update reports success, no token of an
older password is signed under a secret that is in use, stored or loaded at a start. -/
def Covered (w : PasswordWorld Token Digest) : PasswordStep Token → Prop
  | .signIn attempt _ => signsIn verifyPassword attempt = true →
      w.changed ≤ attempt.version ∧ ∀ update ∈ w.updates, ∀ version ∈ update.rotatedFor,
        version ≤ attempt.version
  | .updateJwtSecret version newSecret ok => ok = true → ∀ i ∈ w.issued,
      w.storedAfter newSecret = some i.secret → max w.changed version ≤ i.version
  | .webuiChangePassword _ | .webuiResetPassword _ => ∀ i ∈ w.issued,
      i.secret ≠ w.service.secret ∧ w.stored ≠ some i.secret
  | _ => True

instance decidableAdmits [DecidableEq Token] [DecidableEq Digest] :
    ∀ (w : PasswordWorld Token Digest) step,
      Decidable ((machine lib verifyPassword).admits w step) := by
  intro w step
  cases step <;> (simp only [machine]; infer_instance)

instance decidableCovered : ∀ (w : PasswordWorld Token Digest) step,
    Decidable (Covered verifyPassword w step) := by
  intro w step
  cases step <;> (simp only [Covered]; infer_instance)

/-- No token of an older password than the last one reported as changed is let in. -/
def SessionsEnded [DecidableEq Digest] (w : PasswordWorld Token Digest) : Prop :=
  ∀ i ∈ w.issued, i.version < w.changed → w.service.Dead lib 0 i.token

variable {lib verifyPassword} {w w' : PasswordWorld Token Digest} {i : PasswordStep Token}

/-- A token under the secret in use, or under the stored one, is of a password as new as the last
one changed and as those for which an update has rotated the secret. -/
structure Bounded (lib : JwtLib Token Digest) (w : PasswordWorld Token Digest) : Prop where
  signed : ∀ i ∈ w.issued, ∃ s : JwtService Digest, ∃ userId username t,
    s.secret = i.secret ∧ i.token = s.sign lib t userId username
  current : ∀ i ∈ w.issued, i.secret = w.service.secret → w.changed ≤ i.version ∧
    ∀ update ∈ w.updates, ∀ version ∈ update.rotatedFor, version ≤ i.version
  loaded : ∀ i ∈ w.issued, w.stored = some i.secret → w.changed ≤ i.version
  unissued : ∀ n, w.drawn ≤ n → ∀ i ∈ w.issued, i.secret ≠ w.secrets.draw n
  unused : ∀ n, w.drawn ≤ n → w.service.secret ≠ w.secrets.draw n ∧
    w.stored ≠ some (w.secrets.draw n) ∧
      ∀ version, .rotated version (w.secrets.draw n) ∉ w.updates

theorem bounded_start [DecidableEq Digest] (h : (machine lib verifyPassword).start w) :
    w.Bounded lib := by
  obtain ⟨hboot, hdraw⟩ := h
  rw [hboot]
  refine ⟨fun i hi => (by cases hi), fun i hi => (by cases hi), fun i hi => (by cases hi),
    fun n _ i hi => (by cases hi), fun n _ => ⟨(hdraw n).symm, fun hstored => ?_,
      fun version hmem => (by cases hmem)⟩⟩
  exact hdraw n (Option.some.inj hstored).symm

section

variable (h : w.Bounded lib)
include h

/-- What matters of the updates under way is those that have rotated the secret. -/
theorem Bounded.of_updates {u : List PasswordUpdate}
    (hmem : ∀ version secret, .rotated version secret ∈ u → .rotated version secret ∈ w.updates) :
    { w with updates := u }.Bounded lib := by
  refine ⟨h.signed, fun i hi hsecret => ⟨(h.current i hi hsecret).1, ?_⟩, h.loaded, h.unissued,
    fun n hn => ⟨(h.unused n hn).1, (h.unused n hn).2.1, fun version hrotated =>
      (h.unused n hn).2.2 version (hmem _ _ hrotated)⟩⟩
  intro update hupdate version hversion
  cases update with
  | rotated v secret => exact (h.current i hi hsecret).2 _ (hmem _ _ hupdate) version hversion
  | read => cases hversion
  | written => cases hversion

/-- A token is issued under the secret in use. -/
theorem Bounded.issue {userId username : String} {version now : ℕ}
    (hchanged : w.changed ≤ version)
    (hrotated : ∀ update ∈ w.updates, ∀ v ∈ update.rotatedFor, v ≤ version) :
    (w.issue lib userId username version now).Bounded lib := by
  have hcases : ∀ {i : IssuedToken Token}, i ∈ (w.issue lib userId username version now).issued →
      i ∈ w.issued ∨ i = ⟨w.service.sign lib now userId username, w.service.secret, version⟩ := by
    intro i hi
    obtain hi | hi := List.mem_append.mp hi
    · exact .inl hi
    · exact .inr (List.mem_singleton.mp hi)
  refine ⟨fun i hi => ?_, fun i hi hsecret => ?_, fun i hi hstored => ?_, fun n hn i hi => ?_,
    h.unused⟩
  · obtain hi | rfl := hcases hi
    · exact h.signed i hi
    · exact ⟨w.service, userId, username, now, rfl, rfl⟩
  · obtain hi | rfl := hcases hi
    · exact h.current i hi hsecret
    · exact ⟨hchanged, hrotated⟩
  · obtain hi | rfl := hcases hi
    · exact h.loaded i hi hstored
    · exact hchanged
  · obtain hi | rfl := hcases hi
    · exact h.unissued n hn i hi
    · exact (h.unused n hn).1

/-- A token that is let in was signed under the secret in use. -/
theorem Bounded.secret_of_verify [DecidableEq Digest] {i : IssuedToken Token} (hi : i ∈ w.issued)
    {now : ℕ} {payload : TokenPayload} (hverify : w.service.verify lib i.token now = .ok payload) :
    i.secret = w.service.secret := by
  obtain ⟨s, userId, username, t, hsecret, htoken⟩ := h.signed i hi
  rw [← hsecret]
  by_contra hne
  have hnot : JwtService.accepts lib w.service.secret i.token now = false := by
    rw [htoken]
    exact JwtService.not_accepts_other (Ne.symm hne)
  have haccepts := JwtService.accepts_eq_true.mpr ⟨payload, (JwtService.verify_eq_ok.mp hverify).2⟩
  rw [hnot] at haccepts
  cases haccepts

theorem Bounded.refresh [DecidableEq Digest] {parent : IssuedToken Token}
    (hparent : parent ∈ w.issued) (now : ℕ) : (w.refresh lib parent now).Bounded lib := by
  unfold PasswordWorld.refresh
  cases hverify : w.service.verify lib parent.token now with
  | error e => exact h
  | ok payload =>
    obtain ⟨hchanged, hrotated⟩ := h.current parent hparent (h.secret_of_verify hparent hverify)
    exact h.issue hchanged hrotated

/-- No token is signed under the secret of a rotation yet. -/
theorem Bounded.rotateSecret (version : ℕ) :
    (w.rotateSecret version).Bounded lib := by
  have hnew : ∀ n, w.drawn + 1 ≤ n → w.secrets.draw w.drawn ≠ w.secrets.draw n :=
    fun n hn => (w.secrets.drawn_draw hn).ne_draw
  refine ⟨h.signed, fun i hi hsecret => ?_, h.loaded,
    fun n hn => h.unissued n (Nat.le_of_succ_le hn), fun n hn => ?_⟩
  · exact absurd hsecret (h.unissued w.drawn (Nat.le_refl _) i hi)
  · obtain ⟨-, hstored, hupdates⟩ := h.unused n (Nat.le_of_succ_le hn)
    refine ⟨hnew n hn, hstored, fun v hmem => ?_⟩
    obtain hmem | hmem := List.mem_append.mp hmem
    · exact hupdates v (List.mem_of_mem_erase hmem)
    · obtain ⟨-, hdraw⟩ := PasswordUpdate.rotated.inj (List.mem_singleton.mp hmem)
      exact hnew n hn hdraw.symm

theorem Bounded.updateJwtSecret {version : ℕ} {newSecret : String}
    (hmem : .rotated version newSecret ∈ w.updates) {ok : Bool}
    (hcovered : ok = true → ∀ i ∈ w.issued, w.storedAfter newSecret = some i.secret →
      max w.changed version ≤ i.version) :
    (w.updateJwtSecret version newSecret ok).Bounded lib := by
  have herased := h.of_updates (u := w.updates.erase (.rotated version newSecret))
    fun _ _ hin => List.mem_of_mem_erase hin
  cases ok with
  | false => exact herased
  | true =>
    refine ⟨h.signed, fun i hi hsecret => ?_, fun i hi hstored => hcovered rfl i hi hstored,
      h.unissued, fun n hn => ⟨(h.unused n hn).1, fun hstored => ?_, (herased.unused n hn).2.2⟩⟩
    · -- a token of the secret in use is of a password as new as that of this update
      obtain ⟨hchanged, hrotated⟩ := h.current i hi hsecret
      exact ⟨Nat.max_le.mpr ⟨hchanged, hrotated _ hmem version rfl⟩,
        (herased.current i hi hsecret).2⟩
    · have hstored : w.storedAfter newSecret = some (w.secrets.draw n) := hstored
      unfold storedAfter at hstored
      split at hstored
      · obtain rfl := Option.some.inj hstored
        exact (h.unused n hn).2.2 version hmem
      · exact (h.unused n hn).2.1 hstored

theorem Bounded.webuiSetPassword {newHash : String}
    (hcovered : ∀ i ∈ w.issued, i.secret ≠ w.service.secret ∧ w.stored ≠ some i.secret) :
    (w.webuiSetPassword newHash).Bounded lib :=
  ⟨h.signed, fun i hi hsecret => absurd hsecret (hcovered i hi).1,
    fun i hi hstored => absurd hstored (hcovered i hi).2, h.unissued, h.unused⟩

end

/-- Either the stored secret is loaded or a new one drawn. -/
theorem restart_cases (w : PasswordWorld Token Digest) :
    (∃ secret, w.stored = some secret ∧
      w.restart = { w with service := .new secret, logins := [], updates := [] }) ∨
    w.restart = { w with
      service := .new (w.secrets.draw w.drawn), stored := some (w.secrets.draw w.drawn)
      drawn := w.drawn + 1, logins := [], updates := [] } := by
  unfold restart
  cases hstored : w.stored.filter (· ≠ "") with
  | none => exact .inr rfl
  | some secret => exact .inl ⟨secret, (Option.filter_eq_some_iff.mp hstored).1, rfl⟩

theorem Bounded.restart (h : w.Bounded lib) : w.restart.Bounded lib := by
  obtain ⟨secret, hstored, heq⟩ | heq := w.restart_cases
  · rw [heq]
    refine ⟨h.signed, fun i hi hsecret => ⟨h.loaded i hi (hsecret ▸ hstored),
      fun update hmem => (by cases hmem)⟩, h.loaded, h.unissued,
      fun n hn => ⟨fun hdraw => ?_, (h.unused n hn).2.1, fun version hmem => (by cases hmem)⟩⟩
    have hdraw : secret = w.secrets.draw n := hdraw
    exact (h.unused n hn).2.1 (hdraw ▸ hstored)
  · have hnew : ∀ n, w.drawn + 1 ≤ n → w.secrets.draw w.drawn ≠ w.secrets.draw n :=
      fun n hn => (w.secrets.drawn_draw hn).ne_draw
    -- the new secret is in use and stored, and no token is of it
    have hnone := h.unissued w.drawn (Nat.le_refl _)
    rw [heq]
    refine ⟨h.signed, fun i hi hsecret => absurd hsecret (hnone i hi),
      fun i hi hsecret => absurd (Option.some.inj hsecret).symm (hnone i hi),
      fun n hn => h.unissued n (Nat.le_of_succ_le hn),
      fun n hn => ⟨hnew n hn, fun hstored => hnew n hn (Option.some.inj hstored),
        fun version hmem => (by cases hmem)⟩⟩

theorem Bounded.step [DecidableEq Digest] (h : w.Bounded lib)
    (hstep : (machine lib verifyPassword).admits w i) (hcovered : w.Covered verifyPassword i) :
    (w.fire lib verifyPassword i).Bounded lib := by
  cases i with
  | login username password =>
    show (w.login username password).Bounded lib
    unfold login
    split
    · exact h
    · split
      · exact ⟨h.signed, h.current, h.loaded, h.unissued, h.unused⟩
      · exact h
  | signIn attempt now =>
    have herased : { w with logins := w.logins.erase attempt }.Bounded lib :=
      ⟨h.signed, h.current, h.loaded, h.unissued, h.unused⟩
    show (w.signIn lib verifyPassword attempt now).Bounded lib
    unfold signIn
    split
    · rename_i hsigns
      exact herased.issue (hcovered hsigns).1 (hcovered hsigns).2
    · exact herased
  | refresh parent now => exact h.refresh hstep now
  | changePassword currentPassword =>
    refine h.of_updates fun version secret hmem => ?_
    obtain hmem | hmem := List.mem_append.mp hmem
    · exact hmem
    · cases List.mem_singleton.mp hmem
  | updatePassword currentPassword passwordHash newHash ok =>
    have hkept : ∀ version secret,
        .rotated version secret ∈ w.updates.erase (.read currentPassword passwordHash) →
          .rotated version secret ∈ w.updates := fun _ _ hin => List.mem_of_mem_erase hin
    show (w.updatePassword verifyPassword currentPassword passwordHash newHash ok).Bounded lib
    unfold updatePassword
    split
    · have hadded := h.of_updates
        (u := w.updates.erase (.read currentPassword passwordHash) ++ [.written (w.version + 1)])
        fun version secret hmem => by
          obtain hmem | hmem := List.mem_append.mp hmem
          · exact hkept version secret hmem
          · cases List.mem_singleton.mp hmem
      exact ⟨hadded.signed, hadded.current, hadded.loaded, hadded.unissued, hadded.unused⟩
    · exact h.of_updates hkept
  | rotateSecret version => exact h.rotateSecret version
  | updateJwtSecret version newSecret ok => exact h.updateJwtSecret hstep hcovered
  | webuiChangePassword newHash => exact h.webuiSetPassword hcovered
  | webuiResetPassword newHash => exact h.webuiSetPassword hcovered
  | restart => exact h.restart

theorem Bounded.sessionsEnded [DecidableEq Digest] (h : w.Bounded lib) : w.SessionsEnded lib := by
  intro i hi hold t claims _ hverify
  have hchanged := (h.current i hi (h.secret_of_verify hi hverify)).1
  omega

/-- In every run of covered steps no token of an older password is let in once a change has been
reported, and a restart brings none back. -/
theorem password_change_ends_sessions [DecidableEq Digest]
    (h : ((machine lib verifyPassword).restrict (Covered verifyPassword)).Reachable w) :
    w.SessionsEnded lib := by
  have hstart : ∀ w, (machine lib verifyPassword).start w → w.Bounded lib :=
    fun _ hs => bounded_start hs
  have hbounded := h.invariant (M := (machine lib verifyPassword).restrict _)
    (P := fun w => w.Bounded lib) hstart fun _ _ hs hi => hs.step hi.1 hi.2
  exact hbounded.sessionsEnded

/-- The system user with the password "old"; a hash is the password itself. -/
def adaWorld : PasswordWorld (String × TokenPayload) (String × TokenPayload) :=
  boot "" .tally "u" "ada" "old" true

theorem adaWorld_start : (machine .plain (· == ·)).start adaWorld :=
  ⟨rfl, Supply.tally_ne_empty⟩

/-- A session is opened and refreshed, the password is changed, the server started again, and a new
session opened. -/
theorem change_ends_session : (Machine.run (machine .plain (· == ·)) adaWorld
    [.login "ada" "old", .signIn ⟨"old", "old", 0⟩ 1,
      .refresh ⟨("", JwtService.claims "u" "ada" 1), "", 0⟩ 2, .changePassword "old",
      .updatePassword "old" "old" "new" true, .rotateSecret 1, .updateJwtSecret 1 "x" true, .restart,
      .login "ada" "new", .signIn ⟨"new", "new", 1⟩ 9]).SessionsEnded .plain :=
  password_change_ends_sessions (Machine.reachable_run adaWorld_start (by decide +kernel))

/-- The password is reset while a session is open. -/
theorem session_outlives_reset : ¬∀ w, (machine .plain (· == ·)).Reachable w →
    w.SessionsEnded (.plain : JwtLib (String × TokenPayload) _) := by
  intro h
  have hended := h (Machine.run (machine .plain (· == ·)) adaWorld
    [.login "ada" "old", .signIn ⟨"old", "old", 0⟩ 1, .webuiResetPassword "new"])
    (Machine.reachable_run adaWorld_start (by decide +kernel))
  exact hended ⟨("", JwtService.claims "u" "ada" 1), "", 0⟩ (by decide +kernel) (by decide +kernel)
    5 (JwtService.claims "u" "ada" 1) (by decide +kernel) (by decide +kernel)

end PasswordWorld

end AionCore.Auth
