import AionCore.Lib.Table
import Mathlib.Data.Int.Notation

/-!
# Conversations: the table of conversations

Rows of `conversations` and the statements of `SqliteConversationRepository` that write them one at
a time. A statement that fails leaves the table as it is.
-/

namespace AionCore.Conversation

/-- The type of the column `extra` is left open: its text, or what is read from it. -/
structure ConversationRow (Extra : Type) where
  id : String
  userId : String
  name : String
  type : String
  extra : Extra
  model : Option String
  status : Option String
  source : Option String
  channelChatId : Option String
  pinned : Bool
  pinnedAt : Option ℤ
  createdAt : ℤ
  updatedAt : ℤ
  deriving DecidableEq

/-- `none` keeps a value. -/
structure ConversationRowUpdate (Extra : Type) where
  name : Option String := none
  pinned : Option Bool := none
  pinnedAt : Option (Option ℤ) := none
  model : Option (Option String) := none
  extra : Option Extra := none
  status : Option String := none
  updatedAt : Option ℤ := none
  deriving DecidableEq

variable {Extra : Type}

/-- The values that the statement sets. -/
def ConversationRowUpdate.apply (updates : ConversationRowUpdate Extra)
    (row : ConversationRow Extra) : ConversationRow Extra :=
  { row with
    name := updates.name.getD row.name
    pinned := updates.pinned.getD row.pinned
    pinnedAt := updates.pinnedAt.getD row.pinnedAt
    model := updates.model.getD row.model
    extra := updates.extra.getD row.extra
    status := updates.status.or row.status
    updatedAt := updates.updatedAt.getD row.updatedAt }

inductive DbError where
  | notFound (message : String)
  | query

abbrev StoredConversations (Extra : Type) := List (ConversationRow Extra)

namespace StoredConversations

variable (rows : StoredConversations Extra)

/-- `get`. -/
def byId (id : String) : Option (ConversationRow Extra) := Table.find ConversationRow.id rows id

def create (row : ConversationRow Extra) : Except DbError (StoredConversations Extra) :=
  match byId rows row.id with
  | some _ => .error .query
  | none => .ok (rows ++ [row])

def conversationNotFound (id : String) : DbError :=
  .notFound ("Conversation '" ++ id ++ "' not found")

/-- Without anything to set there is no statement. -/
def update [DecidableEq Extra] (id : String) (updates : ConversationRowUpdate Extra) :
    Except DbError (StoredConversations Extra) :=
  if updates = {} then .ok rows
  else
    match byId rows id with
    | none => .error (conversationNotFound id)
    | some _ => .ok (Table.modify ConversationRow.id rows id updates.apply)

def delete (id : String) : Except DbError (StoredConversations Extra) :=
  match byId rows id with
  | none => .error (conversationNotFound id)
  | some _ => .ok (rows.filter fun row => row.id ≠ id)

/-- No two conversations have one id. -/
abbrev Distinct : Prop := Table.Distinct ConversationRow.id rows

variable {rows} {rows' : StoredConversations Extra} {id : String} {row : ConversationRow Extra}
  {updates : ConversationRowUpdate Extra}

theorem create_ok (h : create rows row = .ok rows') :
    byId rows row.id = none ∧ rows' = rows ++ [row] := by
  unfold create at h
  split at h
  · cases h
  · next hfree => exact ⟨hfree, (Except.ok.inj h).symm⟩

theorem update_ok [DecidableEq Extra] (h : update rows id updates = .ok rows') :
    rows' = rows ∨ rows' = Table.modify ConversationRow.id rows id updates.apply := by
  unfold update at h
  split at h
  · exact .inl (Except.ok.inj h).symm
  · split at h
    · cases h
    · exact .inr (Except.ok.inj h).symm

/-- An update of a conversation that there is leaves it with the values that are set. -/
theorem update_found [DecidableEq Extra] (updates : ConversationRowUpdate Extra)
    (h : byId rows id = some row) :
    ∃ rows', update rows id updates = .ok rows' ∧ byId rows' id = some (updates.apply row) := by
  unfold update
  by_cases hempty : updates = {}
  · rw [if_pos hempty, hempty]
    exact ⟨rows, rfl, h⟩
  · rw [if_neg hempty, h]
    refine ⟨_, rfl, ?_⟩
    have hfind : byId (Table.modify ConversationRow.id rows id updates.apply) id =
        (byId rows id).map updates.apply := Table.find_modify fun _ hr => hr
    exact hfind.trans (congrArg (Option.map updates.apply) h)

theorem update_missing [DecidableEq Extra] (h : byId rows id = none)
    (hok : update rows id updates = .ok rows') : rows' = rows := by
  unfold update at hok
  split at hok
  · exact (Except.ok.inj hok).symm
  · rw [h] at hok
    cases hok

theorem delete_ok (h : delete rows id = .ok rows') :
    rows' = rows.filter fun row => row.id ≠ id := by
  unfold delete at h
  split at h
  · cases h
  · exact (Except.ok.inj h).symm

theorem Distinct.create (hd : Distinct rows) (h : create rows row = .ok rows') :
    Distinct rows' := by
  obtain ⟨hfree, rfl⟩ := create_ok h
  exact Table.Distinct.insert hd hfree

theorem Distinct.update [DecidableEq Extra] (hd : Distinct rows)
    (h : update rows id updates = .ok rows') : Distinct rows' := by
  obtain rfl | rfl := update_ok h
  · exact hd
  · exact Table.Distinct.modify hd fun _ _ => rfl

theorem Distinct.delete (hd : Distinct rows) (h : delete rows id = .ok rows') :
    Distinct rows' := by
  obtain rfl := delete_ok h
  exact List.Nodup.sublist (List.filter_sublist.map _) hd

end StoredConversations

end AionCore.Conversation
