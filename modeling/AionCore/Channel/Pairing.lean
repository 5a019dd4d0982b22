import AionCore.Lib.Dict
import AionCore.Lib.Machine
import Mathlib.Algebra.GroupWithZero.Nat

/-!
# Channels: pairing codes

The calls of `PairingService` in `pairing.rs`, each split at its statements in `sqlite_channel.rs`.
A statement takes effect as a whole, or fails and leaves the tables as they are.
-/

namespace AionCore.Channel

def pairingCodeLength : ℕ := 6

def pairingCodeTtl : ℕ := 600000

inductive PairingStatus where
  | pending
  | approved
  | rejected
  | expired
  deriving DecidableEq

structure PairingCodeRow where
  code : String
  platformUserId : String
  platformType : String
  displayName : Option String
  requestedAt : ℕ
  expiresAt : ℕ
  status : PairingStatus
  deriving DecidableEq

structure AssistantUserRow where
  id : String
  platformUserId : String
  platformType : String
  displayName : Option String
  authorizedAt : ℕ
  lastActive : Option ℕ
  sessionId : Option String

/-- The platform user who asked for the code. -/
def PairingCodeRow.user (r : PairingCodeRow) : String × String := (r.platformUserId, r.platformType)

def AssistantUserRow.user (u : AssistantUserRow) : String × String :=
  (u.platformUserId, u.platformType)

def generatePairingCode (num : ℕ) : String :=
  let digits := toString (num % 10 ^ pairingCodeLength)
  String.ofList (List.replicate (pairingCodeLength - digits.length) '0') ++ digits

structure PairingRequest where
  platformUserId : String
  platformType : String
  displayName : Option String
  deriving DecidableEq

def PairingRequest.row (request : PairingRequest) (num now : ℕ) : PairingCodeRow where
  code := generatePairingCode num
  platformUserId := request.platformUserId
  platformType := request.platformType
  displayName := request.displayName
  requestedAt := now
  expiresAt := now + pairingCodeTtl
  status := .pending

def PairingCodeRow.assistantUser (r : PairingCodeRow) (id : String) (now : ℕ) :
    AssistantUserRow where
  id := id
  platformUserId := r.platformUserId
  platformType := r.platformType
  displayName := r.displayName
  authorizedAt := now
  lastActive := none
  sessionId := none

/-- The call that looks a code up. -/
inductive PairingDecision where
  | approve
  | reject
  deriving DecidableEq

/-- The statement a call is at: `request_pairing` lists the pending codes, marks the user's as
expired and inserts the new one; `approve_pairing` and `reject_pairing` read the row, check it, and
mark it as expired or write what they decided. -/
inductive PairingCall where
  | listing (request : PairingRequest)
  | expiring (request : PairingRequest) (codes : List String)
  | creating (row : PairingCodeRow)
  | reading (decision : PairingDecision) (code : String)
  | validating (decision : PairingDecision) (row : PairingCodeRow)
  | marking (decision : PairingDecision) (code : String)
  | creatingUser (row : PairingCodeRow) (userId : String) (now : ℕ)
  | rejecting (code : String)
  | cleaning (now : ℕ)
  deriving DecidableEq

/-- A write that gave a code another status. -/
structure StatusChange where
  code : String
  old : PairingStatus
  new : PairingStatus
  deriving DecidableEq

/-- A call of `approve_pairing` that has returned, and whether it has created the user. -/
structure ApproveReturn where
  code : String
  userCreated : Bool
  ok : Bool

/-- The two tables, the time, and the calls under way; `approve_pairing` between its two writes is
held apart, as the row it has read. As history the status changes and the approvals that have
returned. -/
structure PairingWorld where
  codes : Dict String PairingCodeRow
  users : List AssistantUserRow
  clock : ℕ
  calls : List PairingCall
  approvals : List PairingCodeRow
  changes : List StatusChange
  returns : List ApproveReturn

/-- A call begins; the call that is named takes its next step, its statement well or not; or time
passes. Four random bytes may be missing. -/
inductive PairingStep where
  | requestPairing (request : PairingRequest)
  | approvePairing (code : String)
  | rejectPairing (code : String)
  | cleanupTick
  | getPendingPairings (request : PairingRequest) (ok : Bool)
  | expireOld (request : PairingRequest) (code : String) (codes : List String) (ok : Bool)
  | generateCode (request : PairingRequest) (num : Option ℕ)
  | createPairing (row : PairingCodeRow) (ok : Bool)
  | getPairingByCode (decision : PairingDecision) (code : String) (ok : Bool)
  | validate (decision : PairingDecision) (row : PairingCodeRow) (userId : String)
  | markExpired (decision : PairingDecision) (code : String) (ok : Bool)
  | createUser (row : PairingCodeRow) (userId : String) (now : ℕ) (ok : Bool)
  | approve (row : PairingCodeRow) (ok : Bool)
  | reject (code : String) (ok : Bool)
  | cleanupExpiredPairings (now : ℕ) (ok : Bool)
  | advance (now : ℕ)

namespace PairingWorld

def boot (clock : ℕ) : PairingWorld :=
  { codes := ∅, users := [], clock := clock, calls := [], approvals := [], changes := []
    returns := [] }

def settle (w : PairingWorld) (call : PairingCall) (next : List PairingCall) : PairingWorld :=
  { w with calls := w.calls.erase call ++ next }

/-- An update of the status of the rows that `p` selects. -/
def updateStatus (w : PairingWorld) (p : String → PairingCodeRow → Bool) (status : PairingStatus) :
    PairingWorld :=
  { w with
    codes := w.codes.mapValues fun code row =>
      if p code row then { row with status := status } else row
    changes := w.changes ++
      (w.codes.entries.filter fun e => p e.1 e.2 && decide (e.2.status ≠ status)).map
        fun e => ⟨e.1, e.2.status, status⟩ }

def updatePairingStatus (w : PairingWorld) (code : String) (status : PairingStatus) :
    PairingWorld :=
  w.updateStatus (fun c _ => c = code) status

/-- The selection of `cleanup_expired_pairings`. -/
def stale (now : ℕ) (row : PairingCodeRow) : Bool :=
  decide (row.status = .pending) && decide (row.expiresAt ≤ now)

def pendingCodes (w : PairingWorld) (request : PairingRequest) : List String :=
  let rows := (w.codes.values.filter fun r => decide (r.status = .pending)).insertionSort
    fun a b => b.requestedAt ≤ a.requestedAt
  (rows.filter fun r => decide (r.platformUserId = request.platformUserId) &&
    decide (r.platformType = request.platformType)).map (·.code)

def getPendingPairings (w : PairingWorld) (request : PairingRequest) (ok : Bool) : PairingWorld :=
  w.settle (.listing request) (if ok then [.expiring request (w.pendingCodes request)] else [])

def expireOld (w : PairingWorld) (request : PairingRequest) (code : String) (codes : List String)
    (ok : Bool) : PairingWorld :=
  if ok then
    (w.updatePairingStatus code .expired).settle (.expiring request (code :: codes))
      (if (w.codes.lookup code).isSome then [.expiring request codes] else [])
  else w.settle (.expiring request (code :: codes)) []

def generateCode (w : PairingWorld) (request : PairingRequest) (num : Option ℕ) : PairingWorld :=
  w.settle (.expiring request [])
    (num.elim [] fun num => [.creating (request.row num w.clock)])

def createPairing (w : PairingWorld) (row : PairingCodeRow) (ok : Bool) : PairingWorld :=
  let w := w.settle (.creating row) []
  if ok && (w.codes.lookup row.code).isNone then { w with codes := w.codes.insert row.code row }
  else w

def refuse (w : PairingWorld) (decision : PairingDecision) (code : String) : PairingWorld :=
  match decision with
  | .approve => { w with returns := w.returns ++ [⟨code, false, false⟩] }
  | .reject => w

def getPairingByCode (w : PairingWorld) (decision : PairingDecision) (code : String) (ok : Bool) :
    PairingWorld :=
  match (w.codes.lookup code).filter fun _ => ok with
  | some row => w.settle (.reading decision code) [.validating decision row]
  | none => (w.settle (.reading decision code) []).refuse decision code

/-- The rest of `get_valid_pending_pairing`, with what the call does before its next await. -/
def validate (w : PairingWorld) (decision : PairingDecision) (row : PairingCodeRow)
    (userId : String) : PairingWorld :=
  if row.status ≠ .pending then (w.settle (.validating decision row) []).refuse decision row.code
  else if row.expiresAt ≤ w.clock then
    w.settle (.validating decision row) [.marking decision row.code]
  else
    w.settle (.validating decision row) [match decision with
      | .approve => .creatingUser row userId w.clock
      | .reject => .rejecting row.code]

def markExpired (w : PairingWorld) (decision : PairingDecision) (code : String) (ok : Bool) :
    PairingWorld :=
  let w' := if ok then w.updatePairingStatus code .expired else w
  (w'.settle (.marking decision code) []).refuse decision code

def taken (w : PairingWorld) (user : AssistantUserRow) : Bool :=
  w.users.any fun u => decide (u.id = user.id) || decide (u.user = user.user)

def createUser (w : PairingWorld) (row : PairingCodeRow) (userId : String) (now : ℕ) (ok : Bool) :
    PairingWorld :=
  let user := row.assistantUser userId now
  if ok && !w.taken user then
    { w.settle (.creatingUser row userId now) [] with
      users := w.users ++ [user]
      approvals := w.approvals ++ [row] }
  else (w.settle (.creatingUser row userId now) []).refuse .approve row.code

/-- `approve_pairing` ends with the update of the status. -/
def approve (w : PairingWorld) (row : PairingCodeRow) (ok : Bool) : PairingWorld :=
  let w' := if ok then w.updatePairingStatus row.code .approved else w
  { w' with
    approvals := w.approvals.erase row
    returns := w.returns ++ [⟨row.code, true, ok && (w.codes.lookup row.code).isSome⟩] }

def reject (w : PairingWorld) (code : String) (ok : Bool) : PairingWorld :=
  let w' := if ok then w.updatePairingStatus code .rejected else w
  w'.settle (.rejecting code) []

def cleanupExpiredPairings (w : PairingWorld) (now : ℕ) (ok : Bool) : PairingWorld :=
  let w' := if ok then w.updateStatus (fun _ row => stale now row) .expired else w
  w'.settle (.cleaning now) []

def fire (w : PairingWorld) : PairingStep → PairingWorld
  | .requestPairing request => { w with calls := w.calls ++ [.listing request] }
  | .approvePairing code => { w with calls := w.calls ++ [.reading .approve code] }
  | .rejectPairing code => { w with calls := w.calls ++ [.reading .reject code] }
  | .cleanupTick => { w with calls := w.calls ++ [.cleaning w.clock] }
  | .getPendingPairings request ok => w.getPendingPairings request ok
  | .expireOld request code codes ok => w.expireOld request code codes ok
  | .generateCode request num => w.generateCode request num
  | .createPairing row ok => w.createPairing row ok
  | .getPairingByCode decision code ok => w.getPairingByCode decision code ok
  | .validate decision row userId => w.validate decision row userId
  | .markExpired decision code ok => w.markExpired decision code ok
  | .createUser row userId now ok => w.createUser row userId now ok
  | .approve row ok => w.approve row ok
  | .reject code ok => w.reject code ok
  | .cleanupExpiredPairings now ok => w.cleanupExpiredPairings now ok
  | .advance now => { w with clock := now }

/-- Any number of calls take their steps in any order. -/
def machine : Machine PairingWorld PairingStep where
  start w := w = boot w.clock
  admits w
    | .getPendingPairings request _ => .listing request ∈ w.calls
    | .expireOld request code codes _ => .expiring request (code :: codes) ∈ w.calls
    | .generateCode request _ => .expiring request [] ∈ w.calls
    | .createPairing row _ => .creating row ∈ w.calls
    | .getPairingByCode decision code _ => .reading decision code ∈ w.calls
    | .validate decision row _ => .validating decision row ∈ w.calls
    | .markExpired decision code _ => .marking decision code ∈ w.calls
    | .createUser row userId now _ => .creatingUser row userId now ∈ w.calls
    | .approve row _ => row ∈ w.approvals
    | .reject code _ => .rejecting code ∈ w.calls
    | .cleanupExpiredPairings now _ => .cleaning now ∈ w.calls
    | .advance now => w.clock ≤ now
    | _ => True
  fire := fire

def Pending (w : PairingWorld) (code : String) : Prop :=
  ∃ row, w.codes.lookup code = some row ∧ row.status = .pending

/-- A code leaves `pending` at most once and changes in no other way, the users are those with an
approved code or with one that an approval under way has still to mark, an approval that returns an
error has created no user, and no user has two unexpired pending codes. -/
structure Authorises (w : PairingWorld) : Prop where
  once : (w.changes.map (·.code)).Nodup
  leaves : ∀ c ∈ w.changes, c.old = .pending
  authorised : ∀ u ∈ w.users,
    (∃ code row, w.codes.lookup code = some row ∧ row.user = u.user ∧ row.status = .approved) ∨
      ∃ a ∈ w.approvals, a.user = u.user ∧ w.Pending a.code
  approved : ∀ code row, w.codes.lookup code = some row → row.status = .approved →
    ∃ u ∈ w.users, u.user = row.user
  failed : ∀ r ∈ w.returns, r.ok = false → r.userCreated = false
  single : ∀ code row code' row', w.codes.lookup code = some row →
    w.codes.lookup code' = some row' → row.user = row'.user → row.status = .pending →
    row'.status = .pending → w.clock < row.expiresAt → w.clock < row'.expiresAt → code = code'

def InHand (w : PairingWorld) (code : String) : Prop := ∃ a ∈ w.approvals, a.code = code

/-- The rows that `p` selects have this status already, or are pending and in no approval's hand. -/
def Free (w : PairingWorld) (p : String → PairingCodeRow → Bool) (status : PairingStatus) : Prop :=
  ∀ e ∈ w.codes.entries, p e.1 e.2 = true →
    e.2.status = status ∨ (e.2.status = .pending ∧ ¬w.InHand e.1)

/-- A status is written only over `pending`, or over itself, and not while an approval holds the
code; the user is created while the code is still pending, and its status is then updated; and a
new code finds no other unexpired pending code of the user. -/
def Orderly (w : PairingWorld) : PairingStep → Prop
  | .expireOld _ code _ ok | .markExpired _ code ok =>
    ok = true → w.Free (fun c _ => c = code) .expired
  | .reject code ok => ok = true → w.Free (fun c _ => c = code) .rejected
  | .cleanupExpiredPairings now ok => ok = true → w.Free (fun _ row => stale now row) .expired
  | .createUser row userId now ok =>
    ok = true → w.taken (row.assistantUser userId now) = false →
      ∃ e ∈ w.codes.entries, e.1 = row.code ∧ e.2.status = .pending
  | .approve _ ok => ok = true
  | .createPairing row ok =>
    ok = true → (w.codes.lookup row.code).isNone = true → w.clock < row.expiresAt →
      ∀ e ∈ w.codes.entries, e.2.user = row.user → e.2.status = .pending → e.2.expiresAt ≤ w.clock
  | _ => True

instance decidableAdmits : ∀ (w : PairingWorld) step, Decidable (machine.admits w step) := by
  intro w step
  cases step <;> (simp only [machine]; infer_instance)

instance (w : PairingWorld) (code : String) : Decidable (w.InHand code) :=
  inferInstanceAs (Decidable (∃ a ∈ w.approvals, a.code = code))

instance (w : PairingWorld) (p : String → PairingCodeRow → Bool) (status : PairingStatus) :
    Decidable (w.Free p status) := by
  unfold Free
  infer_instance

instance decidableOrderly : ∀ (w : PairingWorld) step, Decidable (w.Orderly step) := by
  intro w step
  cases step <;> (simp only [Orderly]; infer_instance)

variable {w : PairingWorld} {p : String → PairingCodeRow → Bool} {status : PairingStatus}
  {code : String} {row : PairingCodeRow}

theorem mem_entries {e : Sigma fun _ : String => PairingCodeRow} :
    e ∈ w.codes.entries ↔ w.codes.lookup e.1 = some e.2 := AList.mem_lookup_iff.symm

theorem lookup_updateStatus :
    (w.updateStatus p status).codes.lookup code = (w.codes.lookup code).map fun row =>
      if p code row then { row with status := status } else row :=
  Dict.lookup_mapValues _ w.codes code

theorem lookup_unselected (hrow : w.codes.lookup code = some row) (hp : ¬p code row = true) :
    (w.updateStatus p status).codes.lookup code = some row := by
  rw [lookup_updateStatus, hrow, Option.map_some, if_neg hp]

/-- A row after the update is a row before it, with its status or the new one. -/
theorem of_updateStatus (hrow : (w.updateStatus p status).codes.lookup code = some row) :
    ∃ r, w.codes.lookup code = some r ∧ row.code = r.code ∧ row.user = r.user ∧
      row.expiresAt = r.expiresAt ∧ (row = r ∧ ¬p code r = true ∨
        row.status = status ∧ p code r = true) := by
  rw [lookup_updateStatus, Option.map_eq_some_iff] at hrow
  obtain ⟨r, hr, rfl⟩ := hrow
  refine ⟨r, hr, ?_⟩
  by_cases hp : p code r = true
  · rw [if_pos hp]
    exact ⟨rfl, rfl, rfl, .inr ⟨rfl, hp⟩⟩
  · rw [if_neg hp]
    exact ⟨rfl, rfl, rfl, .inl ⟨rfl, hp⟩⟩

theorem lookup_user_updateStatus (hrow : w.codes.lookup code = some row) :
    ∃ r, (w.updateStatus p status).codes.lookup code = some r ∧ r.user = row.user ∧
      (row.status ≠ .pending → status ≠ .pending → r.status ≠ .pending) := by
  rw [lookup_updateStatus, hrow, Option.map_some]
  refine ⟨_, rfl, ?_⟩
  by_cases hp : p code row = true
  · rw [if_pos hp]
    exact ⟨rfl, fun _ hne => hne⟩
  · rw [if_neg hp]
    exact ⟨rfl, fun hne _ => hne⟩

theorem of_mem_changes {c : StatusChange} (h : c ∈ (w.updateStatus p status).changes) :
    c ∈ w.changes ∨ ∃ r, w.codes.lookup c.code = some r ∧ p c.code r = true ∧ r.status ≠ status ∧
      c.old = r.status := by
  obtain h | h := List.mem_append.mp h
  · exact .inl h
  · obtain ⟨e, he, rfl⟩ := List.mem_map.mp h
    obtain ⟨hentry, hsel⟩ := List.mem_filter.mp he
    obtain ⟨hp, hne⟩ := Bool.and_eq_true_iff.mp hsel
    exact .inr ⟨e.2, mem_entries.mp hentry, hp, of_decide_eq_true hne, rfl⟩

theorem mem_changes (hrow : w.codes.lookup code = some row) (hp : p code row = true)
    (hne : row.status ≠ status) :
    ⟨code, row.status, status⟩ ∈ (w.updateStatus p status).changes := by
  refine List.mem_append_right _ (List.mem_map.mpr ⟨⟨code, row⟩, List.mem_filter.mpr
    ⟨mem_entries.mpr hrow, ?_⟩, rfl⟩)
  exact Bool.and_eq_true_iff.mpr ⟨hp, decide_eq_true hne⟩

/-- Rows are found under their codes, and a code that has changed has left `pending`, once. -/
structure Recorded (w : PairingWorld) : Prop where
  keyed : ∀ code row, w.codes.lookup code = some row → row.code = code
  once : (w.changes.map (·.code)).Nodup
  leaves : ∀ c ∈ w.changes, c.old = .pending
  changed : ∀ c ∈ w.changes, ∃ row, w.codes.lookup c.code = some row ∧ row.status ≠ .pending

theorem Recorded.updateStatus (h : w.Recorded) (hstatus : status ≠ .pending)
    (hp : ∀ code row, w.codes.lookup code = some row → p code row = true →
      row.status = status ∨ row.status = .pending) : (w.updateStatus p status).Recorded := by
  have hnew : ∀ c ∈ (w.updateStatus p status).changes, c ∈ w.changes ∨
      ∃ row, w.codes.lookup c.code = some row ∧ p c.code row = true ∧ c.old = .pending ∧
        row.status = .pending := by
    intro c hc
    obtain hc | ⟨row, hrow, hsel, hne, hold⟩ := of_mem_changes hc
    · exact .inl hc
    · have hpending := (hp _ _ hrow hsel).resolve_left hne
      exact .inr ⟨row, hrow, hsel, hold.trans hpending, hpending⟩
  refine ⟨?_, ?_, ?_, ?_⟩
  · intro code row hrow
    obtain ⟨r, hr, hcode, -⟩ := of_updateStatus hrow
    rw [hcode, h.keyed _ _ hr]
  · -- the rows selected are pending, and those of the history are not
    show (List.map _ (w.changes ++ _)).Nodup
    rw [List.map_append, List.map_map]
    refine List.nodup_append.mpr ⟨h.once, ?_, ?_⟩
    · exact w.codes.nodupKeys.sublist (List.filter_sublist)
    · rintro _ hold _ hadded rfl
      obtain ⟨c, hc, hcode⟩ := List.mem_map.mp hold
      obtain ⟨e, he, hkey⟩ := List.mem_map.mp hadded
      obtain ⟨hentry, hsel⟩ := List.mem_filter.mp he
      obtain ⟨hpe, hne⟩ := Bool.and_eq_true_iff.mp hsel
      obtain ⟨row, hrow, hnot⟩ := h.changed c hc
      have hsame : w.codes.lookup c.code = some e.2 := by
        rw [hcode, ← hkey]
        exact mem_entries.mp hentry
      have hrowe : row = e.2 := Option.some.inj (hrow.symm.trans hsame)
      have hpending := (hp _ _ (mem_entries.mp hentry) hpe).resolve_left (of_decide_eq_true hne)
      exact hnot (hrowe ▸ hpending)
  · intro c hc
    obtain hc | ⟨_, _, _, hold, _⟩ := hnew c hc
    · exact h.leaves c hc
    · exact hold
  · intro c hc
    obtain hc | ⟨row, hrow, hsel, -, hpending⟩ := hnew c hc
    · obtain ⟨row, hrow, hnot⟩ := h.changed c hc
      obtain ⟨r, hr, -, hrnot⟩ := lookup_user_updateStatus hrow
      exact ⟨r, hr, hrnot hnot hstatus⟩
    · refine ⟨{ row with status := status }, ?_, hstatus⟩
      rw [lookup_updateStatus, hrow, Option.map_some, if_pos hsel]

/-- If the update keeps the history in order, it was made over `pending` or over itself. -/
theorem Recorded.selected {w : PairingWorld}
    (hleaves : ∀ c ∈ (w.updateStatus p status).changes, c.old = .pending) {code : String}
    {row : PairingCodeRow} (hrow : w.codes.lookup code = some row) (hp : p code row = true) :
    row.status = status ∨ row.status = .pending := by
  by_cases hstatus : row.status = status
  · exact .inl hstatus
  · exact .inr (hleaves _ (mem_changes hrow hp hstatus))

def Reads (w : PairingWorld) : PairingCall → Prop
  | .validating _ row | .creatingUser row _ _ =>
    ∃ r, w.codes.lookup row.code = some r ∧ r.user = row.user
  | .creating row => row.status = .pending
  | _ => True

variable {call : PairingCall}

theorem Reads.of_codes {w w' : PairingWorld} (h : w.Reads call)
    (hcodes : ∀ code row, w.codes.lookup code = some row →
      ∃ r, w'.codes.lookup code = some r ∧ r.user = row.user) :
    w'.Reads call := by
  have hrow : ∀ row : PairingCodeRow, (∃ r, w.codes.lookup row.code = some r ∧ r.user = row.user) →
      ∃ r, w'.codes.lookup row.code = some r ∧ r.user = row.user := by
    rintro row ⟨r, hr, huser⟩
    obtain ⟨r', hr', huser'⟩ := hcodes _ _ hr
    exact ⟨r', hr', huser'.trans huser⟩
  cases call with
  | validating decision row => exact hrow row h
  | creatingUser row userId now => exact hrow row h
  | creating row => exact h
  | listing | expiring | reading | marking | rejecting | cleaning => trivial

/-- An approval in progress has created the one row of its user, who has no approved code, and will
find its own code pending. -/
structure Settled (w : PairingWorld) : Prop extends Recorded w where
  read : ∀ call ∈ w.calls, w.Reads call
  pending : ∀ a ∈ w.approvals,
    ∃ row, w.codes.lookup a.code = some row ∧ row.user = a.user ∧ row.status = .pending
  distinct : (w.approvals.map (·.user)).Nodup
  created : ∀ a ∈ w.approvals, ∃ u ∈ w.users, u.user = a.user
  unapproved : ∀ a ∈ w.approvals, ∀ code row, w.codes.lookup code = some row →
    row.user = a.user → row.status ≠ .approved
  authorised : ∀ u ∈ w.users,
    (∃ code row, w.codes.lookup code = some row ∧ row.user = u.user ∧ row.status = .approved) ∨
      ∃ a ∈ w.approvals, a.user = u.user
  approved : ∀ code row, w.codes.lookup code = some row → row.status = .approved →
    ∃ u ∈ w.users, u.user = row.user
  failed : ∀ r ∈ w.returns, r.ok = false → r.userCreated = false
  single : ∀ code row code' row', w.codes.lookup code = some row →
    w.codes.lookup code' = some row' → row.user = row'.user → row.status = .pending →
    row'.status = .pending → w.clock < row.expiresAt → w.clock < row'.expiresAt → code = code'

theorem Settled.authorises (h : w.Settled) : w.Authorises where
  once := h.once
  leaves := h.leaves
  authorised u hu := (h.authorised u hu).imp_right fun ⟨a, ha, huser⟩ => by
    obtain ⟨row, hrow, -, hpending⟩ := h.pending a ha
    exact ⟨a, ha, huser, row, hrow, hpending⟩
  approved := h.approved
  failed := h.failed
  single := h.single

theorem settled_boot (clock : ℕ) : (boot clock).Settled where
  keyed _ _ h := by cases h
  once := .nil
  leaves _ h := by cases h
  changed _ h := by cases h
  read _ h := by cases h
  pending _ h := by cases h
  distinct := .nil
  created _ h := by cases h
  unapproved _ h := by cases h
  authorised _ h := by cases h
  approved _ _ h := by cases h
  failed _ h := by cases h
  single _ _ _ _ h := by cases h

/-- The calls, the time and the approvals that have returned may change under the tables. -/
theorem Settled.of_frame (h : w.Settled) {calls : List PairingCall} {now : ℕ}
    {returns : List ApproveReturn} (hcalls : ∀ call ∈ calls, w.Reads call) (hnow : w.clock ≤ now)
    (hreturns : ∀ r ∈ returns, r.ok = false → r.userCreated = false) :
    { w with calls := calls, clock := now, returns := returns }.Settled :=
  ⟨⟨h.keyed, h.once, h.leaves, h.changed⟩,
    fun call hc => (hcalls call hc).of_codes fun _ row hrow => ⟨row, hrow, rfl⟩,
    h.pending, h.distinct, h.created, h.unapproved, h.authorised, h.approved, hreturns,
    fun code row code' row' hrow hrow' huser hp hp' hlater hlater' =>
      h.single code row code' row' hrow hrow' huser hp hp' (Nat.lt_of_le_of_lt hnow hlater)
        (Nat.lt_of_le_of_lt hnow hlater')⟩

theorem Settled.settle (h : w.Settled) {next : List PairingCall} (hnext : ∀ c ∈ next, w.Reads c) :
    (w.settle call next).Settled :=
  h.of_frame (fun c hc => (List.mem_append.mp hc).elim
    (fun hold => h.read c (List.mem_of_mem_erase hold)) (hnext c)) (Nat.le_refl _) h.failed

theorem Settled.begin (h : w.Settled) (hread : w.Reads call) :
    { w with calls := w.calls ++ [call] }.Settled :=
  h.of_frame (fun c hc => (List.mem_append.mp hc).elim (h.read c) fun hnew => by
    rw [List.mem_singleton.mp hnew]
    exact hread) (Nat.le_refl _) h.failed

variable {decision : PairingDecision}

theorem Settled.refuse (h : w.Settled) :
    (w.refuse decision code).Settled := by
  cases decision with
  | reject => exact h
  | approve =>
    refine h.of_frame h.read (Nat.le_refl _) fun r hr hok => ?_
    obtain hr | hr := List.mem_append.mp hr
    · exact h.failed r hr hok
    · rw [List.mem_singleton.mp hr]

theorem Free.selected (h : w.Free p status) (hrow : w.codes.lookup code = some row)
    (hp : p code row = true) : row.status = status ∨ (row.status = .pending ∧ ¬w.InHand code) :=
  h ⟨code, row⟩ (mem_entries.mpr hrow) hp

/-- A code is rejected, or codes expire. -/
theorem Settled.updateStatus (h : w.Settled) (hpending : status ≠ .pending)
    (happroved : status ≠ .approved) (hfree : w.Free p status) :
    (w.updateStatus p status).Settled := by
  have hsame : ∀ {code row}, (w.updateStatus p status).codes.lookup code = some row →
      row.status = .pending ∨ row.status = .approved → w.codes.lookup code = some row := by
    intro code row hrow hstatus
    obtain ⟨r, hr, -, -, -, ⟨rfl, -⟩ | ⟨hnew, -⟩⟩ := of_updateStatus hrow
    · exact hr
    · rw [hnew] at hstatus
      exact (hstatus.elim hpending happroved).elim
  refine ⟨h.toRecorded.updateStatus hpending fun code row hrow hp =>
      (hfree.selected hrow hp).imp_right And.left, fun call hc => (h.read call hc).of_codes
        fun code row hrow => ?_, fun a ha => ?_, h.distinct, h.created, ?_, fun u hu => ?_, ?_,
      h.failed, ?_⟩
  · exact (lookup_user_updateStatus hrow).imp fun r hr => ⟨hr.1, hr.2.1⟩
  · -- the code of an approval is in its hand, and so is not selected
    obtain ⟨row, hrow, huser, hstatus⟩ := h.pending a ha
    refine ⟨row, lookup_unselected hrow fun hp => ?_, huser, hstatus⟩
    obtain heq | ⟨-, hnot⟩ := hfree.selected hrow hp
    · exact hpending (heq.symm.trans hstatus)
    · exact hnot ⟨a, ha, rfl⟩
  · intro a ha code row hrow huser hstatus
    exact h.unapproved a ha code row (hsame hrow (.inr hstatus)) huser hstatus
  · refine (h.authorised u hu).imp_left ?_
    rintro ⟨code, row, hrow, huser, hstatus⟩
    refine ⟨code, row, lookup_unselected hrow fun hp => ?_, huser, hstatus⟩
    obtain heq | ⟨hnot, -⟩ := hfree.selected hrow hp
    · exact happroved (heq.symm.trans hstatus)
    · rw [hstatus] at hnot
      cases hnot
  · intro code row hrow hstatus
    exact h.approved code row (hsame hrow (.inr hstatus)) hstatus
  · intro code row code' row' hrow hrow' huser hstatus hstatus'
    exact h.single code row code' row' (hsame hrow (.inl hstatus)) (hsame hrow' (.inl hstatus'))
      huser hstatus hstatus'

variable {ok : Bool}

theorem Settled.updateStatus_of_ok (h : w.Settled) (hpending : status ≠ .pending)
    (happroved : status ≠ .approved) (hfree : ok = true → w.Free p status) :
    (if ok then w.updateStatus p status else w).Settled := by
  cases ok with
  | false => exact h
  | true => exact h.updateStatus hpending happroved (hfree rfl)

theorem Settled.eq_of_user (h : w.Settled) {a b : PairingCodeRow} (ha : a ∈ w.approvals)
    (hb : b ∈ w.approvals) (huser : a.user = b.user) : a = b :=
  List.inj_on_of_nodup_map h.distinct ha hb huser

/-- The code of the approval is marked, and the approval returns. -/
theorem Settled.approve (h : w.Settled) (hmem : row ∈ w.approvals) :
    (w.approve row true).Settled := by
  obtain ⟨r, hr, hruser, hrpending⟩ := h.pending row hmem
  have hnodup : w.approvals.Nodup := List.Nodup.of_map _ h.distinct
  have hrest : ∀ a ∈ w.approvals.erase row, a ∈ w.approvals ∧ a.user ≠ row.user := fun a ha => by
    obtain ⟨hne, ha⟩ := hnodup.mem_erase_iff.mp ha
    exact ⟨ha, fun huser => hne (h.eq_of_user ha hmem huser)⟩
  have hselected : ∀ {code r'}, w.codes.lookup code = some r' → decide (code = row.code) = true →
      r' = r := fun hr' hcode => by
    rw [of_decide_eq_true hcode, hr] at hr'
    exact (Option.some.inj hr').symm
  have hrecorded : (w.updatePairingStatus row.code .approved).Recorded :=
    h.toRecorded.updateStatus (by decide) fun code r' hr' hcode =>
      .inr (hselected hr' hcode ▸ hrpending)
  have hmarked : (w.updatePairingStatus row.code .approved).codes.lookup row.code =
      some { r with status := .approved } := by
    show (w.updateStatus _ _).codes.lookup _ = _
    rw [lookup_updateStatus, hr, Option.map_some, if_pos (decide_eq_true rfl)]
  have happroved : ∀ {code r'}, (w.updatePairingStatus row.code .approved).codes.lookup code =
      some r' → r'.status = .approved → w.codes.lookup code = some r' ∨ r'.user = row.user := by
    intro code r' hr' _
    obtain ⟨r₀, hr₀, -, huser, -, ⟨rfl, -⟩ | ⟨-, hcode⟩⟩ := of_updateStatus hr'
    · exact .inl hr₀
    · exact .inr (by rw [huser, hselected hr₀ hcode, hruser])
  have hopen : ∀ {code r'}, (w.updatePairingStatus row.code .approved).codes.lookup code =
      some r' → r'.status = .pending → w.codes.lookup code = some r' := by
    intro code r' hr' hstatus
    obtain ⟨r₀, hr₀, -, -, -, ⟨rfl, -⟩ | ⟨hnew, -⟩⟩ := of_updateStatus hr'
    · exact hr₀
    · rw [hnew] at hstatus
      cases hstatus
  refine ⟨⟨hrecorded.keyed, hrecorded.once, hrecorded.leaves, hrecorded.changed⟩,
    fun call hc => (h.read call hc).of_codes fun code r' hr' => ?_, fun a ha => ?_,
    h.distinct.sublist (List.erase_sublist.map _), fun a ha => h.created a (hrest a ha).1, ?_, ?_,
    ?_, ?_, ?_⟩
  · obtain ⟨r'', hr'', huser, -⟩ := lookup_user_updateStatus hr'
    exact ⟨r'', hr'', huser⟩
  · -- the codes of other approvals belong to other users
    obtain ⟨hold, hne⟩ := hrest a ha
    obtain ⟨r', hr', huser, hstatus⟩ := h.pending a hold
    refine ⟨r', lookup_unselected hr' fun hcode => hne ?_, huser, hstatus⟩
    rw [← huser, hselected hr' hcode, hruser]
  · intro a ha code r' hr' huser hstatus
    obtain ⟨hold, hne⟩ := hrest a ha
    obtain hsame | hmine := happroved hr' hstatus
    · exact h.unapproved a hold code r' hsame huser hstatus
    · exact hne (huser.symm.trans hmine)
  · intro u hu
    obtain ⟨code, r', hr', huser, hstatus⟩ | ⟨a, ha, huser⟩ := h.authorised u hu
    · refine .inl ⟨code, r', lookup_unselected hr' fun hcode => ?_, huser, hstatus⟩
      rw [hselected hr' hcode, hrpending] at hstatus
      cases hstatus
    · -- the user of this approval is authorised by its code from now on
      by_cases hmine : a = row
      · subst hmine
        exact .inl ⟨a.code, _, hmarked, hruser.trans huser, rfl⟩
      · exact .inr ⟨a, hnodup.mem_erase_iff.mpr ⟨hmine, ha⟩, huser⟩
  · intro code r' hr' hstatus
    obtain hsame | hmine := happroved hr' hstatus
    · exact h.approved code r' hsame hstatus
    · rw [hmine]
      exact h.created row hmem
  · intro x hx hok
    obtain hx | hx := List.mem_append.mp hx
    · exact h.failed x hx hok
    · rw [List.mem_singleton.mp hx] at hok
      rw [hr] at hok
      cases hok
  · intro code r₁ code' r₂ hr₁ hr₂ huser hstatus₁ hstatus₂ hlater₁ hlater₂
    exact h.single code r₁ code' r₂ (hopen hr₁ hstatus₁) (hopen hr₂ hstatus₂) huser hstatus₁
      hstatus₂ hlater₁ hlater₂

theorem not_taken {user u : AssistantUserRow} (h : w.taken user = false) (hu : u ∈ w.users) :
    u.user ≠ user.user := by
  have hneither := List.any_eq_false.mp h u hu
  simp only [Bool.or_eq_true, decide_eq_true_eq, not_or] at hneither
  exact hneither.2

/-- The user is created while his code is still pending. -/
theorem Settled.createUser (h : w.Settled) {userId : String} {now : ℕ}
    (hread : ∃ r, w.codes.lookup row.code = some r ∧ r.user = row.user)
    (hopen : ok = true → w.taken (row.assistantUser userId now) = false →
      ∃ e ∈ w.codes.entries, e.1 = row.code ∧ e.2.status = .pending) :
    (w.createUser row userId now ok).Settled := by
  unfold PairingWorld.createUser
  have hsettled : (w.settle (.creatingUser row userId now) []).Settled :=
    h.settle fun c hc => (by cases hc)
  extract_lets user
  split
  · rename_i hcreated
    obtain ⟨hok, hfree⟩ := Bool.and_eq_true_iff.mp hcreated
    have hfree : w.taken (row.assistantUser userId now) = false := by simpa using hfree
    have hnew : ∀ u ∈ w.users, u.user ≠ row.user := fun u hu => not_taken hfree hu
    obtain ⟨r, hr, huser⟩ := hread
    obtain ⟨e, he, hcode, hstatus⟩ := hopen hok hfree
    have hpending : r.status = .pending := by
      have hlookup := mem_entries.mp he
      rw [hcode, hr] at hlookup
      exact Option.some.inj hlookup ▸ hstatus
    refine ⟨⟨h.keyed, h.once, h.leaves, h.changed⟩, fun call hc => (hsettled.read call hc).of_codes
      fun _ r hr => ⟨r, hr, rfl⟩, fun a ha => ?_, ?_, fun a ha => ?_, fun a ha => ?_,
      fun u hu => ?_, fun code r' hr' happroved => ?_, h.failed, h.single⟩
    · obtain ha | ha := List.mem_append.mp ha
      · exact h.pending a ha
      · rw [List.mem_singleton.mp ha]
        exact ⟨r, hr, huser, hpending⟩
    · rw [List.map_append]
      refine List.nodup_append.mpr ⟨h.distinct, List.nodup_singleton _, ?_⟩
      rintro _ hold _ hadded rfl
      obtain ⟨a, ha, heq⟩ := List.mem_map.mp hold
      obtain ⟨u, hu, huser⟩ := h.created a ha
      exact hnew u hu (huser.trans (heq.trans (List.mem_singleton.mp hadded)))
    · obtain ha | ha := List.mem_append.mp ha
      · obtain ⟨u, hu, huser⟩ := h.created a ha
        exact ⟨u, List.mem_append_left _ hu, huser⟩
      · rw [List.mem_singleton.mp ha]
        exact ⟨_, List.mem_append_right _ (List.mem_singleton.mpr rfl), rfl⟩
    · intro code r' hr' hmine happroved
      obtain ha | ha := List.mem_append.mp ha
      · exact h.unapproved a ha code r' hr' hmine happroved
      · -- a user with an approved code has a row already
        rw [List.mem_singleton.mp ha] at hmine
        obtain ⟨u, hu, huser⟩ := h.approved code r' hr' happroved
        exact hnew u hu (huser.trans hmine)
    · obtain hu | hu := List.mem_append.mp hu
      · exact (h.authorised u hu).imp_right fun ⟨a, ha, huser⟩ =>
          ⟨a, List.mem_append_left _ ha, huser⟩
      · rw [List.mem_singleton.mp hu]
        exact .inr ⟨row, List.mem_append_right _ (List.mem_singleton.mpr rfl), rfl⟩
    · obtain ⟨u, hu, huser⟩ := h.approved code r' hr' happroved
      exact ⟨u, List.mem_append_left _ hu, huser⟩
  · exact hsettled.refuse

/-- The new code finds no other unexpired pending code of its user. -/
theorem Settled.createPairing (h : w.Settled) (hpending : row.status = .pending)
    (hsingle : ok = true → (w.codes.lookup row.code).isNone = true → w.clock < row.expiresAt →
      ∀ e ∈ w.codes.entries, e.2.user = row.user → e.2.status = .pending →
        e.2.expiresAt ≤ w.clock) :
    (w.createPairing row ok).Settled := by
  unfold PairingWorld.createPairing
  have hsettled : (w.settle (.creating row) []).Settled := h.settle fun c hc => (by cases hc)
  extract_lets w'
  split
  · rename_i hinsert
    obtain ⟨hok, hnone⟩ := Bool.and_eq_true_iff.mp hinsert
    have hnone' : w.codes.lookup row.code = none := Option.isNone_iff_eq_none.mp hnone
    have hlookup : ∀ code, AList.lookup code (w.codes.insert row.code row) =
        if code = row.code then some row else w.codes.lookup code := fun code =>
      Dict.lookup_insert' w.codes row.code code row
    have hkept : ∀ {code r}, w.codes.lookup code = some r →
        AList.lookup code (w.codes.insert row.code row) = some r := fun {code r} hr => by
      have hne : code ≠ row.code := by
        rintro rfl
        rw [hnone'] at hr
        cases hr
      rw [hlookup, if_neg hne, hr]
    have hcases : ∀ {code r}, AList.lookup code (w.codes.insert row.code row) = some r →
        w.codes.lookup code = some r ∨ code = row.code ∧ r = row := fun {code r} hr => by
      by_cases hcode : code = row.code
      · rw [hlookup, if_pos hcode] at hr
        exact .inr ⟨hcode, (Option.some.inj hr).symm⟩
      · rw [hlookup, if_neg hcode] at hr
        exact .inl hr
    have hdone : ∀ {code r}, AList.lookup code (w.codes.insert row.code row) = some r →
        r.status = .approved → w.codes.lookup code = some r := fun {code r} hr happroved => by
      obtain hold | ⟨-, rfl⟩ := hcases hr
      · exact hold
      · rw [hpending] at happroved
        cases happroved
    have halone : w.clock < row.expiresAt → ∀ code r, w.codes.lookup code = some r →
        r.user = row.user → r.status = .pending → r.expiresAt ≤ w.clock :=
      fun hlater code r hr => hsingle hok hnone hlater ⟨code, r⟩ (mem_entries.mpr hr)
    refine ⟨⟨fun code r hr => ?_, h.once, h.leaves, fun c hc => ?_⟩, fun call hc =>
      (hsettled.read call hc).of_codes fun _ r hr => ⟨r, hkept hr, rfl⟩, fun a ha => ?_,
      h.distinct, h.created, fun a ha code r hr huser happroved =>
        h.unapproved a ha code r (hdone hr happroved) huser happroved, fun u hu =>
        (h.authorised u hu).imp_left fun ⟨code, r, hr, huser, hstatus⟩ =>
          ⟨code, r, hkept hr, huser, hstatus⟩,
      fun code r hr happroved => h.approved code r (hdone hr happroved) happroved, h.failed,
      fun code r code' r' hr hr' huser hstatus hstatus' hlater hlater' => ?_⟩
    · obtain hold | ⟨rfl, rfl⟩ := hcases hr
      · exact h.keyed code r hold
      · rfl
    · obtain ⟨r, hr, hnot⟩ := h.changed c hc
      exact ⟨r, hkept hr, hnot⟩
    · obtain ⟨r, hr, hboth⟩ := h.pending a ha
      exact ⟨r, hkept hr, hboth⟩
    · -- if one of the two codes is the new one, the other has expired or is the new one too
      obtain hold | ⟨rfl, rfl⟩ := hcases hr
      · obtain hold' | ⟨rfl, rfl⟩ := hcases hr'
        · exact h.single code r code' r' hold hold' huser hstatus hstatus' hlater hlater'
        · exact absurd hlater (Nat.not_lt.mpr (halone hlater' code r hold huser hstatus))
      · obtain hold' | ⟨rfl, rfl⟩ := hcases hr'
        · exact absurd hlater' (Nat.not_lt.mpr (halone hlater code' r' hold' huser.symm hstatus'))
        · rfl
  · exact hsettled

variable {i : PairingStep}

section

variable (h : w.Settled)
include h

theorem Settled.getPairingByCode :
    (w.getPairingByCode decision code ok).Settled := by
  unfold PairingWorld.getPairingByCode
  split
  · rename_i row hfound
    obtain ⟨hrow, -⟩ := Option.filter_eq_some_iff.mp hfound
    refine h.settle fun c hc => ?_
    rw [List.mem_singleton.mp hc]
    exact ⟨row, by rw [h.keyed _ _ hrow]; exact hrow, rfl⟩
  · exact (h.settle fun c hc => (by cases hc)).refuse

theorem Settled.validate {userId : String} (hmem : .validating decision row ∈ w.calls) :
    (w.validate decision row userId).Settled := by
  unfold PairingWorld.validate
  split
  · exact (h.settle fun c hc => (by cases hc)).refuse
  · split
    · exact h.settle fun c hc => List.mem_singleton.mp hc ▸ trivial
    · refine h.settle fun c hc => ?_
      rw [List.mem_singleton.mp hc]
      cases decision with
      | approve => exact h.read (.validating .approve row) hmem
      | reject => trivial

theorem Settled.expireOld {request : PairingRequest} {codes : List String}
    (hfree : ok = true → w.Free (fun c _ => c = code) .expired) :
    (w.expireOld request code codes ok).Settled := by
  cases ok with
  | false => exact h.settle fun c hc => (by cases hc)
  | true =>
    refine (h.updateStatus (by decide) (by decide) (hfree rfl)).settle fun c hc => ?_
    split at hc
    · exact List.mem_singleton.mp hc ▸ trivial
    · cases hc

/-- An orderly step keeps the tables and the calls together. -/
theorem Settled.step (hstep : machine.admits w i) (horderly : w.Orderly i) :
    (w.fire i).Settled := by
  cases i with
  | requestPairing request => exact h.begin trivial
  | approvePairing code => exact h.begin trivial
  | rejectPairing code => exact h.begin trivial
  | cleanupTick => exact h.begin trivial
  | getPendingPairings request ok =>
    refine h.settle fun c hc => ?_
    cases ok with
    | false => cases hc
    | true => exact List.mem_singleton.mp hc ▸ trivial
  | expireOld request code codes ok => exact h.expireOld horderly
  | generateCode request num =>
    refine h.settle fun c hc => ?_
    cases num with
    | none => cases hc
    | some num => exact List.mem_singleton.mp hc ▸ rfl
  | createPairing row ok => exact h.createPairing (h.read _ hstep) horderly
  | getPairingByCode decision code ok => exact h.getPairingByCode
  | validate decision row userId => exact h.validate hstep
  | markExpired decision code ok =>
    have hmarked : (if ok then w.updatePairingStatus code .expired else w).Settled :=
      h.updateStatus_of_ok (by decide) (by decide) horderly
    exact (hmarked.settle fun c hc => (by cases hc)).refuse
  | createUser row userId now ok => exact h.createUser (h.read _ hstep) horderly
  | approve row ok =>
    obtain rfl : ok = true := horderly
    exact h.approve hstep
  | reject code ok =>
    have hrejected : (if ok then w.updatePairingStatus code .rejected else w).Settled :=
      h.updateStatus_of_ok (by decide) (by decide) horderly
    exact hrejected.settle fun c hc => (by cases hc)
  | cleanupExpiredPairings now ok =>
    have hcleaned : (if ok then w.updateStatus (fun _ row => stale now row) .expired
        else w).Settled := h.updateStatus_of_ok (by decide) (by decide) horderly
    exact hcleaned.settle fun c hc => (by cases hc)
  | advance now => exact h.of_frame h.read hstep h.failed

/-- An update that takes a code from an approval leaves the approval's user without one. -/
theorem Settled.free (hpending : status ≠ .pending) (happroved : status ≠ .approved)
    (hleaves : ∀ c ∈ (w.updateStatus p status).changes, c.old = .pending)
    (hauthorised : ∀ u ∈ w.users,
      (∃ code row, (w.updateStatus p status).codes.lookup code = some row ∧ row.user = u.user ∧
        row.status = .approved) ∨
      ∃ a ∈ w.approvals, a.user = u.user ∧ (w.updateStatus p status).Pending a.code) :
    w.Free p status := by
  intro e he hp
  have hrow := mem_entries.mp he
  refine (Recorded.selected hleaves hrow hp).imp_right fun hstatus => ⟨hstatus, ?_⟩
  rintro ⟨a, ha, hcode⟩
  obtain ⟨u, hu, huser⟩ := h.created a ha
  -- the user of the approval has no approved code, and his own was to be found pending
  obtain ⟨code, row, hr, hmine, hdone⟩ | ⟨b, hb, hmine, row, hr, hopen⟩ := hauthorised u hu
  · obtain ⟨r, hr', -, hsame, -, ⟨rfl, -⟩ | ⟨hnew, -⟩⟩ := of_updateStatus hr
    · exact h.unapproved a ha code row hr' (hmine.trans huser) hdone
    · exact happroved (hnew.symm.trans hdone)
  · obtain rfl : b = a := h.eq_of_user hb ha (hmine.trans huser)
    rw [hcode, lookup_updateStatus, hrow, Option.map_some, if_pos hp] at hr
    obtain rfl := Option.some.inj hr
    exact hpending hopen

/-- Only an orderly step keeps what the service owes. -/
theorem Settled.orderly (hstep : machine.admits w i) (hnext : (w.fire i).Authorises) :
    w.Orderly i := by
  cases i with
  | expireOld request code codes ok | reject code ok | cleanupExpiredPairings now ok =>
    rintro rfl
    exact h.free (by decide) (by decide) hnext.leaves hnext.authorised
  | markExpired decision code ok =>
    rintro rfl
    cases decision with
    | approve | reject => exact h.free (by decide) (by decide) hnext.leaves hnext.authorised
  | createUser row userId now ok =>
    rintro rfl hfree
    have hfired : w.fire (.createUser row userId now true) =
        { w.settle (.creatingUser row userId now) [] with
          users := w.users ++ [row.assistantUser userId now]
          approvals := w.approvals ++ [row] } := by
      show w.createUser row userId now true = _
      simp only [PairingWorld.createUser, hfree, Bool.true_and, Bool.not_false, if_true]
    rw [hfired] at hnext
    -- the user is new, so it is his own approval that has to find its code pending
    obtain ⟨code, r, hr, hmine, hdone⟩ | ⟨a, ha, hmine, r, hr, hopen⟩ := hnext.authorised
      (row.assistantUser userId now) (List.mem_append_right _ (List.mem_singleton.mpr rfl))
    · obtain ⟨u, hu, huser⟩ := h.approved code r hr hdone
      exact absurd (huser.trans hmine) (not_taken hfree hu)
    · obtain ha | ha := List.mem_append.mp ha
      · obtain ⟨u, hu, huser⟩ := h.created a ha
        exact absurd (huser.trans hmine) (not_taken hfree hu)
      · rw [List.mem_singleton.mp ha] at hr
        exact ⟨⟨row.code, r⟩, mem_entries.mpr hr, rfl, hopen⟩
  | approve row ok =>
    cases ok with
    | true => rfl
    | false =>
      have hfailed := hnext.failed ⟨row.code, true, false⟩
        (List.mem_append_right _ (List.mem_singleton.mpr rfl)) rfl
      cases hfailed
  | createPairing row ok =>
    rintro rfl hnone hlater e he huser hstatus
    have hpending : row.status = .pending := h.read _ hstep
    have hfired : w.fire (.createPairing row true) =
        { w.settle (.creating row) [] with codes := w.codes.insert row.code row } := by
      show w.createPairing row true = _
      unfold PairingWorld.createPairing
      exact if_pos (Bool.and_eq_true_iff.mpr ⟨rfl, hnone⟩)
    rw [hfired] at hnext
    refine Nat.not_lt.mp fun hother => ?_
    have hrow := mem_entries.mp he
    have hne : e.1 ≠ row.code := by
      intro hcode
      rw [hcode, Option.isNone_iff_eq_none.mp hnone] at hrow
      cases hrow
    have hkept : (w.codes.insert row.code row).lookup e.1 = some e.2 := by
      rw [Dict.lookup_insert', if_neg hne, hrow]
    have hinserted : (w.codes.insert row.code row).lookup row.code = some row := by
      rw [Dict.lookup_insert', if_pos rfl]
    exact hne (hnext.single e.1 e.2 row.code row hkept hinserted huser hstatus hpending hother hlater)
  | requestPairing | approvePairing | rejectPairing | cleanupTick | getPendingPairings | generateCode
  | getPairingByCode | validate | advance => trivial

end

/-- While every step is orderly the service does what it owes in every state reached, and the next
step keeps it so exactly if it is orderly too. -/
theorem pairing_authorises (h : (machine.restrict Orderly).Reachable w) :
    w.Authorises ∧ ∀ i, machine.admits w i → ((w.fire i).Authorises ↔ w.Orderly i) := by
  have hsettled : w.Settled := h.invariant (M := machine.restrict Orderly) (P := Settled)
    (fun w hw => by
      have hboot : w = boot w.clock := hw
      rw [hboot]
      exact settled_boot _)
    fun _ _ hs hi => hs.step hi.1 hi.2
  exact ⟨hsettled.authorises, fun i hi =>
    ⟨hsettled.orderly hi, fun horderly => (hsettled.step hi horderly).authorises⟩⟩

section Sample

/-- One user asks for a code at time 0. -/
def sampleRequest : PairingRequest := ⟨"tg-1", "telegram", some "Ann"⟩

def sampleRow : PairingCodeRow := sampleRequest.row 3421 0

def sampleRequested : List PairingStep :=
  [.requestPairing sampleRequest, .getPendingPairings sampleRequest true,
    .generateCode sampleRequest (some 3421), .createPairing sampleRow true]

/-- The user is approved; another code of his expires, and the timer runs. -/
def sampleSteps : List PairingStep :=
  sampleRequested ++
    [.approvePairing "003421", .getPairingByCode .approve "003421" true,
      .validate .approve sampleRow "u1", .createUser sampleRow "u1" 0 true,
      .approve sampleRow true, .requestPairing sampleRequest,
      .getPendingPairings sampleRequest true, .generateCode sampleRequest (some 7),
      .createPairing (sampleRequest.row 7 0) true, .advance 700000, .cleanupTick,
      .cleanupExpiredPairings 700000 true]

/-- The code is approved while a call that rejects it has found it pending. -/
def sampleOverlap : List PairingStep :=
  sampleRequested ++
    [.rejectPairing "003421", .getPairingByCode .reject "003421" true,
      .validate .reject sampleRow "", .approvePairing "003421",
      .getPairingByCode .approve "003421" true, .validate .approve sampleRow "u1",
      .createUser sampleRow "u1" 0 true, .approve sampleRow true, .reject "003421" true]

theorem sample_reachable :
    (machine.restrict Orderly).Reachable ((machine.restrict Orderly).run (boot 0) sampleSteps) :=
  Machine.reachable_run rfl (by decide +kernel)

theorem pairing_authorises_sample :
    ((machine.restrict Orderly).run (boot 0) sampleSteps).Authorises :=
  (pairing_authorises sample_reachable).1

/-- A user is authorised by a code that ends rejected. -/
theorem rejected_code_authorises :
    machine.Reachable (machine.run (boot 0) sampleOverlap) ∧
      ¬(machine.run (boot 0) sampleOverlap).Authorises ∧
      (∃ u ∈ (machine.run (boot 0) sampleOverlap).users, u.user = ("tg-1", "telegram")) ∧
      ∀ e ∈ (machine.run (boot 0) sampleOverlap).codes.entries, e.2.status = .rejected := by
  have hchanges : (machine.run (boot 0) sampleOverlap).changes =
      [⟨"003421", .pending, .approved⟩, ⟨"003421", .approved, .rejected⟩] := by decide +kernel
  refine ⟨Machine.reachable_run rfl (by decide +kernel), fun h => ?_, by decide +kernel,
    by decide +kernel⟩
  have honce := h.once
  rw [hchanges] at honce
  revert honce
  decide

end Sample

end PairingWorld

end AionCore.Channel
