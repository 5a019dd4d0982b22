import AionCore.Conversation.StoredConversations
import AionCore.Lib.Keyset
import AionCore.Lib.Machine
import Mathlib.Data.Prod.Lex
import Mathlib.Data.String.Basic

/-!
# Conversations: pages of the list of conversations

`list_paginated` of `SqliteConversationRepository`, and a walk through the list that asks for each
page with the id of the last conversation it was given, while other operations write the table.
-/

namespace AionCore.Conversation

open Keyset

/-- The key of the order `updated_at DESC, id DESC`. -/
def ConversationRow.key {Extra : Type} (row : ConversationRow Extra) : ℤ ×ₗ String :=
  toLex (row.updatedAt, row.id)

structure ConversationFilters where
  cursor : Option String := none
  limit : UInt32 := 0
  source : Option String := none
  cronJobId : Option String := none
  pinned : Option Bool := none

def ConversationFilters.effectiveLimit (filters : ConversationFilters) : UInt32 :=
  if filters.limit = 0 then 20 else filters.limit

/-- `json_extract` of a column and a path, where it is a text. -/
abbrev JsonExtract (Extra : Type) := Extra → String → Option String

structure PaginatedResult (α : Type) where
  items : List α
  total : ℕ
  hasMore : Bool

section Query

variable {Extra : Type} (json : JsonExtract Extra) (userId : String) (filters : ConversationFilters)

/-- The conditions of `build_count_sql`: the user and those of `append_filter_conditions`. -/
def filterConditions (row : ConversationRow Extra) : Bool :=
  row.userId = userId ∧
    (∀ source ∈ filters.source, row.source = some source) ∧
    (∀ job ∈ filters.cronJobId,
      json row.extra "$.cronJobId" = some job ∨ json row.extra "$.cron_job_id" = some job) ∧
    ∀ pinned ∈ filters.pinned, row.pinned = pinned

/-- `c.updated_at < (SELECT ..) OR (c.updated_at = (SELECT ..) AND c.id < ?)`, where the query in
the brackets has no value if the row of the cursor is gone. -/
def afterCursor (rows : StoredConversations Extra) (cursorId : String)
    (row : ConversationRow Extra) : Bool :=
  match rows.byId cursorId with
  | none => false
  | some cursor =>
    row.updatedAt < cursor.updatedAt ∨ (row.updatedAt = cursor.updatedAt ∧ row.id < cursorId)

def selected (rows : StoredConversations Extra) : StoredConversations Extra :=
  rows.filter fun row =>
    filterConditions json userId filters row ∧ ∀ id ∈ filters.cursor, afterCursor rows id row

/-- The conversations are counted in a query of its own, before the page is selected: `counted` is
the table as that query sees it. The sum `limit + 1` is one of `u32`. -/
def listPaginated (counted rows : StoredConversations Extra) : PaginatedResult (ConversationRow Extra) :=
  let limit := filters.effectiveLimit
  let fetchLimit := limit + 1
  let page :=
    (descending ConversationRow.key (selected json userId filters rows)).take fetchLimit.toNat
  let hasMore : Bool := limit < UInt32.ofNat page.length
  { items := if hasMore then page.dropLast else page
    total := (counted.filter (filterConditions json userId filters)).length
    hasMore }

variable {json userId filters} {rows counted : StoredConversations Extra}
  {x row : ConversationRow Extra}
  {id : String}

theorem mem_selected : x ∈ selected json userId filters rows ↔
    x ∈ rows ∧ filterConditions json userId filters x = true ∧
      ∀ id ∈ filters.cursor, afterCursor rows id x = true := by
  simp [selected]

theorem afterCursor_iff (h : rows.byId id = some row) :
    afterCursor rows id x = true ↔ x.key < row.key := by
  have hid : row.id = id := Table.key_of_find h
  simp only [afterCursor, h, decide_eq_true_eq]
  rw [ConversationRow.key, ConversationRow.key, Prod.Lex.toLex_lt_toLex, hid]

theorem afterCursor_gone (h : rows.byId id = none) : afterCursor rows id x = false := by
  simp only [afterCursor, h]

theorem afterCursor_of_lt {y : ConversationRow Extra} (h : afterCursor rows id y = true)
    (hlt : x.key < y.key) : afterCursor rows id x = true := by
  cases hrow : rows.byId id with
  | none =>
    rw [afterCursor_gone hrow] at h
    exact absurd h Bool.false_ne_true
  | some row =>
    rw [afterCursor_iff hrow] at h ⊢
    exact hlt.trans h

theorem nodup_key_of_distinct (h : rows.Distinct) : (rows.map ConversationRow.key).Nodup := by
  have hids : ((rows.map ConversationRow.key).map fun k => (ofLex k).2).Nodup := by
    rw [List.map_map]
    exact h
  exact List.Nodup.of_map _ hids

theorem effectiveLimit_pos : 0 < filters.effectiveLimit.toNat := by
  unfold ConversationFilters.effectiveLimit
  split
  · decide
  · next h =>
    have hne : filters.limit.toNat ≠ 0 := fun h0 => h (UInt32.toNat_inj.mp h0)
    omega

/-- One row more than the limit says whether there are more rows than the limit. -/
theorem cut_one_more {α : Type} (l : List α) {limit : UInt32} (h : limit.toNat + 1 < 2 ^ 32) :
    let page := l.take (limit + 1).toNat
    (limit < UInt32.ofNat page.length ↔ limit.toNat < l.length) ∧
      (limit.toNat < l.length → page.dropLast = l.take limit.toNat) ∧
      (l.length ≤ limit.toNat → page = l.take limit.toNat) := by
  have hfetch : (limit + 1).toNat = limit.toNat + 1 := by
    rw [UInt32.toNat_add, UInt32.toNat_one, Nat.mod_eq_of_lt h]
  rw [hfetch]
  have hlen : (l.take (limit.toNat + 1)).length = min (limit.toNat + 1) l.length :=
    List.length_take
  refine ⟨?_, fun hlt => ?_, fun hle => ?_⟩
  · have hsize : (l.take (limit.toNat + 1)).length < UInt32.size := by
      rw [hlen]
      exact (min_le_left _ _).trans_lt h
    rw [UInt32.lt_iff_toNat_lt, UInt32.toNat_ofNat_of_lt' hsize, hlen]
    omega
  · have hshort : (l.take (limit.toNat + 1)).length - 1 = limit.toNat := by
      rw [hlen]
      omega
    rw [List.dropLast_eq_take, hshort, List.take_take, min_eq_left (Nat.le_succ _)]
  · rw [List.take_of_length_le hle, List.take_of_length_le (hle.trans (Nat.le_succ _))]

/-- A page is cut after the limit, and there is more if the cut leaves something out. -/
theorem listPaginated_eq (h : filters.effectiveLimit.toNat + 1 < 2 ^ 32) :
    (listPaginated json userId filters counted rows).items =
        (descending ConversationRow.key (selected json userId filters rows)).take
          filters.effectiveLimit.toNat ∧
      ((listPaginated json userId filters counted rows).hasMore = true ↔
        filters.effectiveLimit.toNat < (selected json userId filters rows).length) := by
  have hlen : (descending ConversationRow.key (selected json userId filters rows)).length =
      (selected json userId filters rows).length := (List.perm_insertionSort _ _).length_eq
  obtain ⟨hmore, hcut, hall⟩ :=
    cut_one_more (descending ConversationRow.key (selected json userId filters rows)) h
  rw [hlen] at hmore hcut hall
  unfold listPaginated
  dsimp only
  refine ⟨?_, by rw [decide_eq_true_eq, hmore]⟩
  by_cases hlt : filters.effectiveLimit.toNat < (selected json userId filters rows).length
  · rw [if_pos (decide_eq_true (hmore.mpr hlt)), hcut hlt]
  · rw [if_neg (by simpa using fun hl => hlt (hmore.mp hl)), hall (not_lt.mp hlt)]

theorem distinct_selected (hd : rows.Distinct) : (selected json userId filters rows).Distinct :=
  List.Nodup.sublist (List.filter_sublist.map _) hd

theorem nodup_key_selected (hd : rows.Distinct) :
    ((selected json userId filters rows).map ConversationRow.key).Nodup :=
  nodup_key_of_distinct (distinct_selected hd)

section

variable (h : filters.effectiveLimit.toNat + 1 < 2 ^ 32)
include h

theorem mem_selected_of_mem_items
    (hx : x ∈ (listPaginated json userId filters counted rows).items) :
    x ∈ selected json userId filters rows := by
  rw [(listPaginated_eq h).1] at hx
  exact mem_descending.mp (List.mem_of_mem_take hx)

theorem distinct_items (hd : rows.Distinct) :
    StoredConversations.Distinct (listPaginated json userId filters counted rows).items := by
  have hsorted : StoredConversations.Distinct
      (descending ConversationRow.key (selected json userId filters rows)) :=
    ((List.perm_insertionSort _ _).map ConversationRow.id).nodup_iff.mpr (distinct_selected hd)
  rw [(listPaginated_eq h).1]
  exact List.Nodup.sublist ((List.take_sublist _ _).map _) hsorted

theorem exists_last_item (hmore : (listPaginated json userId filters counted rows).hasMore = true) :
    ∃ last, (listPaginated json userId filters counted rows).items.getLast? = some last := by
  have hlen : ((descending ConversationRow.key (selected json userId filters rows)).take
      filters.effectiveLimit.toNat).length = filters.effectiveLimit.toNat :=
    length_take_descending ((listPaginated_eq h).2.mp hmore)
  have hpos : 0 < filters.effectiveLimit.toNat := effectiveLimit_pos
  have hne : (listPaginated json userId filters counted rows).items ≠ [] := by
    intro hnil
    rw [(listPaginated_eq h).1] at hnil
    rw [hnil] at hlen
    exact hpos.ne hlen
  exact ⟨_, List.getLast?_eq_some_getLast hne⟩

theorem last_le_of_mem_items (hd : rows.Distinct) {last : ConversationRow Extra}
    (hx : x ∈ (listPaginated json userId filters counted rows).items)
    (hlast : (listPaginated json userId filters counted rows).items.getLast? = some last) :
    last.key ≤ x.key := by
  rw [(listPaginated_eq h).1] at hx hlast
  exact last_le_of_mem_take (nodup_key_selected hd) hx hlast

/-- What a page leaves out is below its last item, and there is more. -/
theorem lt_last_of_left_out (hd : rows.Distinct) (hx : x ∈ selected json userId filters rows)
    (hn : x ∉ (listPaginated json userId filters counted rows).items) :
    (listPaginated json userId filters counted rows).hasMore = true ∧
      ∀ last ∈ (listPaginated json userId filters counted rows).items.getLast?,
        x.key < last.key := by
  rw [(listPaginated_eq h).2]
  rw [(listPaginated_eq h).1] at hn ⊢
  refine ⟨lt_length_of_notMem_take hx hn, fun last hlast => ?_⟩
  exact lt_of_notMem_take (nodup_key_selected hd) (List.mem_of_getLast? hlast) hx hn

end

end Query

section Walk

/-- A walk through the list, and of the conversations that there were at its start those that no
operation has changed or deleted. -/
structure ListWalk (Extra : Type) where
  rows : StoredConversations Extra
  untouched : StoredConversations Extra
  counted : Option (StoredConversations Extra) := none
  returned : List (ConversationRow Extra) := []
  hasMore : Bool := true

inductive ListStep (Extra : Type) where
  | create (row : ConversationRow Extra)
  | update (id : String) (updates : ConversationRowUpdate Extra)
  | delete (id : String)
  | count
  | page

namespace ListWalk

variable {Extra : Type} (json : JsonExtract Extra) (userId : String) (filters : ConversationFilters)
  (s : ListWalk Extra)

def lastItem : Option (ConversationRow Extra) := s.returned.getLast?

/-- The filters of the next request. -/
def request : ConversationFilters := { filters with cursor := s.lastItem.map ConversationRow.id }

/-- What a statement of another operation leaves. -/
def write [DecidableEq Extra] (result : Except DbError (StoredConversations Extra)) : ListWalk Extra :=
  match result with
  | .error _ => s
  | .ok rows => { s with rows, untouched := s.untouched.filter (· ∈ rows) }

def nextPage (counted : StoredConversations Extra) : PaginatedResult (ConversationRow Extra) :=
  listPaginated json userId (s.request filters) counted s.rows

def turn (page : PaginatedResult (ConversationRow Extra)) : ListWalk Extra :=
  { s with counted := none, returned := s.returned ++ page.items, hasMore := page.hasMore }

def requestPage : ListWalk Extra :=
  match s.counted with
  | none => s
  | some counted => s.turn (s.nextPage json userId filters counted)

def fire [DecidableEq Extra] : ListStep Extra → ListWalk Extra
  | .create row => s.write (s.rows.create row)
  | .update id updates => s.write (s.rows.update id updates)
  | .delete id => s.write (s.rows.delete id)
  | .count => { s with counted := some s.rows }
  | .page => s.requestPage json userId filters

/-- A page is asked for while there are more, one request at a time. -/
def admits : ListStep Extra → Prop
  | .count => s.hasMore = true ∧ s.counted = none
  | .page => s.counted.isSome = true
  | _ => True

instance : ∀ step, Decidable (s.admits step)
  | .count => inferInstanceAs (Decidable (_ ∧ _))
  | .page => inferInstanceAs (Decidable (_ = _))
  | .create _ | .update _ _ | .delete _ => .isTrue trivial

def machine [DecidableEq Extra] : Machine (ListWalk Extra) (ListStep Extra) where
  start s := ∃ rows : StoredConversations Extra, rows.Distinct ∧ s = { rows, untouched := rows }
  admits := admits
  fire s := s.fire json userId filters

instance [DecidableEq Extra] : ∀ s step, Decidable ((machine json userId filters).admits s step) :=
  fun s step => inferInstanceAs (Decidable (s.admits step))

/-- Each conversation of the list that was left alone is returned once, if not before the end. -/
def Complete : Prop :=
  ∀ x ∈ s.untouched, filterConditions json userId filters x = true →
    (s.returned.map ConversationRow.id).count x.id ≤ 1 ∧
      (s.hasMore = false → (s.returned.map ConversationRow.id).count x.id = 1)

/-- The request of a page can ask for one row more than the limit; and among the conversations of
the list that were left alone the cursor is, where it is now, at the place at which its page ended. -/
def Steady : ListStep Extra → Prop
  | .page => filters.effectiveLimit.toNat + 1 < 2 ^ 32 ∧
      ∀ last ∈ s.lastItem, ∀ x ∈ s.untouched, filterConditions json userId filters x = true →
        (afterCursor s.rows last.id x = true ↔ x.key < last.key)
  | _ => True

instance : ∀ step, Decidable (s.Steady json userId filters step) := by
  intro step
  cases step <;> dsimp only [Steady] <;> infer_instance

instance : Decidable (s.Complete json userId filters) := by unfold Complete; infer_instance

def Due (x : ConversationRow Extra) : Prop := s.hasMore = true ∧ ∀ last ∈ s.lastItem, x.key < last.key

/-- Of the conversations of the list that were left alone those that are not due were returned. -/
structure Progress : Prop where
  distinct : s.rows.Distinct
  present : ∀ x ∈ s.untouched, x ∈ s.rows
  asked : s.counted.isSome = true → s.hasMore = true
  due : ∀ x ∈ s.untouched, filterConditions json userId filters x = true → s.Due x →
    (s.returned.map ConversationRow.id).count x.id = 0
  past : ∀ x ∈ s.untouched, filterConditions json userId filters x = true → ¬s.Due x →
    (s.returned.map ConversationRow.id).count x.id = 1

variable {json userId filters s}

theorem Progress.start {rows : StoredConversations Extra} (h : rows.Distinct) :
    Progress json userId filters { rows, untouched := rows } where
  distinct := h
  present := fun _ hx => hx
  asked := fun _ => rfl
  due := fun _ _ _ _ => rfl
  past := by
    intro x _ _ hdue
    refine absurd ⟨rfl, fun last hlast => ?_⟩ hdue
    cases hlast

section

variable (h : Progress json userId filters s)
include h

theorem Progress.write [DecidableEq Extra] {result : Except DbError (StoredConversations Extra)}
    (hd : ∀ rows, result = .ok rows → rows.Distinct) :
    Progress json userId filters (s.write result) := by
  cases result with
  | error e => exact h
  | ok rows =>
    exact
      { distinct := hd rows rfl
        present := fun x hx => of_decide_eq_true (List.mem_filter.mp hx).2
        asked := h.asked
        due := fun x hx => h.due x (List.mem_filter.mp hx).1
        past := fun x hx => h.past x (List.mem_filter.mp hx).1 }

/-- The rows of a page are cut from those that are due, of those that were left alone. -/
theorem Progress.mem_selected_iff (hc : s.Steady json userId filters .page)
    (hmore : s.hasMore = true) {x : ConversationRow Extra} (hx : x ∈ s.untouched)
    (hf : filterConditions json userId filters x = true) :
    x ∈ selected json userId (s.request filters) s.rows ↔ s.Due x := by
  rw [mem_selected]
  constructor
  · rintro ⟨-, -, hafter⟩
    refine ⟨hmore, fun last hlast => ?_⟩
    refine (hc.2 last hlast x hx hf).mp (hafter last.id ?_)
    exact Option.mem_map_of_mem ConversationRow.id hlast
  · rintro ⟨-, hdue⟩
    refine ⟨h.present x hx, hf, fun id hid => ?_⟩
    obtain ⟨last, hlast, rfl⟩ := Option.mem_map.mp hid
    exact (hc.2 last hlast x hx hf).mpr (hdue last hlast)

/-- After a page those are due that were so and are not on it. -/
theorem Progress.due_turn_iff (hc : s.Steady json userId filters .page) (hmore : s.hasMore = true)
    {counted : StoredConversations Extra} {x : ConversationRow Extra} (hx : x ∈ s.untouched)
    (hf : filterConditions json userId filters x = true) :
    (s.turn (s.nextPage json userId filters counted)).Due x ↔
      s.Due x ∧ x ∉ (s.nextPage json userId filters counted).items := by
  have hlimit : (s.request filters).effectiveLimit.toNat + 1 < 2 ^ 32 := hc.1
  have hsel := h.mem_selected_iff hc hmore hx hf
  constructor
  · rintro ⟨hnext, hbelow⟩
    obtain ⟨last, hlast⟩ := exists_last_item hlimit hnext
    have hlt : x.key < last.key := by
      refine hbelow last ?_
      show (s.returned ++ (s.nextPage json userId filters counted).items).getLast? = some last
      rw [List.getLast?_append]
      exact congrArg (·.or s.returned.getLast?) hlast
    have hafter : ∀ id ∈ (s.request filters).cursor, afterCursor s.rows id x = true := by
      intro id hid
      have hitem := mem_selected_of_mem_items hlimit (List.mem_of_getLast? hlast)
      exact afterCursor_of_lt ((mem_selected.mp hitem).2.2 id hid) hlt
    refine ⟨hsel.mp (mem_selected.mpr ⟨h.present x hx, hf, hafter⟩), fun hin => ?_⟩
    exact absurd hlt (last_le_of_mem_items hlimit h.distinct hin hlast).not_gt
  · rintro ⟨hdue, hn⟩
    obtain ⟨hnext, hbelow⟩ := lt_last_of_left_out hlimit h.distinct (hsel.mpr hdue) hn
    refine ⟨hnext, fun last hlast => hbelow last ?_⟩
    obtain ⟨item, hitem⟩ := exists_last_item hlimit hnext
    have hsame : (s.returned ++ (s.nextPage json userId filters counted).items).getLast? =
        some item := by
      rw [List.getLast?_append]
      exact congrArg (·.or s.returned.getLast?) hitem
    exact hitem.trans (hsame.symm.trans hlast)

/-- How often a page returns a conversation that was left alone. -/
theorem Progress.count_page [DecidableEq Extra] (hc : s.Steady json userId filters .page)
    {counted : StoredConversations Extra} {x : ConversationRow Extra} (hx : x ∈ s.untouched) :
    ((s.nextPage json userId filters counted).items.map ConversationRow.id).count x.id =
      if x ∈ (s.nextPage json userId filters counted).items then 1 else 0 := by
  have hlimit : (s.request filters).effectiveLimit.toNat + 1 < 2 ^ 32 := hc.1
  split
  · next hin => exact (distinct_items hlimit h.distinct).count_of_mem hin
  · next hn =>
    refine h.distinct.count_of_notMem (fun y hy => ?_) (h.present x hx) hn
    exact (mem_selected.mp (mem_selected_of_mem_items hlimit hy)).1

theorem Progress.requestPage [DecidableEq Extra] (hc : s.Steady json userId filters .page) :
    Progress json userId filters (s.requestPage json userId filters) := by
  unfold ListWalk.requestPage
  cases hcounted : s.counted with
  | none => exact h
  | some counted =>
    have hmore : s.hasMore = true := h.asked (by rw [hcounted]; rfl)
    have hcount {x : ConversationRow Extra} (hx : x ∈ s.untouched) :
        ((s.turn (s.nextPage json userId filters counted)).returned.map
          ConversationRow.id).count x.id = (s.returned.map ConversationRow.id).count x.id +
            if x ∈ (s.nextPage json userId filters counted).items then 1 else 0 := by
      rw [← h.count_page hc hx, ← List.count_append, ← List.map_append]
      rfl
    refine ⟨h.distinct, h.present, fun hnone => absurd hnone Bool.false_ne_true, ?_, ?_⟩
    · intro x hx hf hdue
      obtain ⟨hbefore, hn⟩ := (h.due_turn_iff hc hmore hx hf).mp hdue
      rw [hcount hx, if_neg hn, h.due x hx hf hbefore]
    · intro x hx hf hdue
      rw [hcount hx]
      by_cases hbefore : s.Due x
      · have hin : x ∈ (s.nextPage json userId filters counted).items := by
          by_contra hn
          exact hdue ((h.due_turn_iff hc hmore hx hf).mpr ⟨hbefore, hn⟩)
        rw [if_pos hin, h.due x hx hf hbefore]
      · have hn : x ∉ (s.nextPage json userId filters counted).items := fun hin =>
          hbefore ((h.mem_selected_iff hc hmore hx hf).mp (mem_selected_of_mem_items hc.1 hin))
        rw [if_neg hn, h.past x hx hf hbefore]

theorem Progress.fire [DecidableEq Extra] {step : ListStep Extra} (ha : s.admits step)
    (hc : s.Steady json userId filters step) :
    Progress json userId filters (s.fire json userId filters step) := by
  cases step with
  | create row => exact h.write fun _ hrows => h.distinct.create hrows
  | update id updates => exact h.write fun _ hrows => h.distinct.update hrows
  | delete id => exact h.write fun _ hrows => h.distinct.delete hrows
  | count => exact ⟨h.distinct, h.present, fun _ => ha.1, h.due, h.past⟩
  | page => exact h.requestPage hc

theorem Progress.complete : s.Complete json userId filters := by
  intro x hx hf
  by_cases hdue : s.Due x
  · have hzero := h.due x hx hf hdue
    exact ⟨by omega, fun hend => absurd (hdue.1.symm.trans hend) (by decide)⟩
  · have hone := h.past x hx hf hdue
    exact ⟨hone.le, fun _ => hone⟩

end

/-- In every walk with steady cursors each conversation of the list that is left alone is returned
once, and the walk does not end before all of them were. -/
theorem returns_each_conversation_once [DecidableEq Extra]
    (h : ((machine json userId filters).restrict
      fun s step => s.Steady json userId filters step).Reachable s) :
    s.Complete json userId filters := by
  have progress : Progress json userId filters s := by
    refine h.invariant ?_ ?_
    · rintro s ⟨rows, hd, rfl⟩
      exact .start hd
    · intro s step hs hstep
      exact hs.fire hstep.1 hstep.2
  exact progress.complete

section Execution

def sampleConversation (id : String) (updatedAt : ℤ) : ConversationRow String :=
  ⟨id, "u", id, "acp", "{}", none, some "finished", some "aionui", none, false, none, 0, updatedAt⟩

/-- No conversation is one of a cron job. -/
def sampleJson : JsonExtract String := fun _ _ => none

def sampleList : StoredConversations String :=
  [sampleConversation "a" 3, sampleConversation "b" 2, sampleConversation "c" 1]

def sampleWalk (limit : UInt32) (steps : List (ListStep String)) : ListWalk String :=
  (machine sampleJson "u" { limit }).run { rows := sampleList, untouched := sampleList } steps

theorem sampleList_distinct : sampleList.Distinct := by
  unfold StoredConversations.Distinct Table.Distinct
  decide

/-- The list ends after the first page when the conversation of its cursor is deleted, the first
page is shown again in part when it is updated, and the largest limit shows nothing. -/
theorem walk_loses_conversations :
    (∃ s, (machine sampleJson "u" { limit := 1 }).Reachable s ∧
      ¬s.Complete sampleJson "u" { limit := 1 }) ∧
    (∃ s, (machine sampleJson "u" { limit := 2 }).Reachable s ∧
      ¬s.Complete sampleJson "u" { limit := 2 }) ∧
    ∃ s, (machine sampleJson "u" { limit := 4294967295 }).Reachable s ∧
      ¬s.Complete sampleJson "u" { limit := 4294967295 } := by
  refine ⟨⟨sampleWalk 1 [.count, .page, .delete "a", .count, .page], ?_, by decide +kernel⟩,
    ⟨sampleWalk 2 [.count, .page, .update "b" { updatedAt := some 9 }, .count, .page], ?_,
      by decide +kernel⟩, ⟨sampleWalk 4294967295 [.count, .page], ?_, by decide +kernel⟩⟩
  all_goals exact Machine.reachable_run ⟨sampleList, sampleList_distinct, rfl⟩ (by decide +kernel)

theorem returns_each_of_three_conversations :
    (sampleWalk 2 [.count, .page, .update "a" { updatedAt := some 9 }, .create
      (sampleConversation "d" 10), .count, .page]).Complete sampleJson "u" { limit := 2 } :=
  returns_each_conversation_once
    (Machine.reachable_run ⟨sampleList, sampleList_distinct, rfl⟩ (by decide +kernel))

end Execution

end ListWalk

end Walk

end AionCore.Conversation
