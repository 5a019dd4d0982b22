import AionCore.Conversation.ConversationPaging
import AionCore.Conversation.StoredMessages
import AionCore.Lib.OffsetPages

/-!
# Conversations: the search of messages

`search_messages` of `SqliteConversationRepository` and of the service. The page is a number and a
size, in `u32`, and the rows are ordered by their time alone: SQLite may order those of one time as
it likes, for every request anew.
-/

namespace AionCore.Conversation

open OffsetPages

structure MessageSearchRow (Extra : Type) where
  messageId : String
  type : MessageType
  content : String
  createdAt : ℤ
  conversationId : String
  conversationName : String
  conversationType : String
  conversationExtra : Extra
  conversationModel : Option String
  conversationStatus : Option String
  conversationSource : Option String
  conversationChannelChatId : Option String
  conversationPinned : Bool
  conversationPinnedAt : Option ℤ
  conversationCreatedAt : ℤ
  conversationUpdatedAt : ℤ

/-- The columns that the query selects. -/
def MessageSearchRow.select {Extra : Type} (m : StoredMessage) (c : ConversationRow Extra) :
    MessageSearchRow Extra where
  messageId := m.id
  type := m.type
  content := m.content
  createdAt := m.createdAt
  conversationId := c.id
  conversationName := c.name
  conversationType := c.type
  conversationExtra := c.extra
  conversationModel := c.model
  conversationStatus := c.status
  conversationSource := c.source
  conversationChannelChatId := c.channelChatId
  conversationPinned := c.pinned
  conversationPinnedAt := c.pinnedAt
  conversationCreatedAt := c.createdAt
  conversationUpdatedAt := c.updatedAt

/-- The two tables, each with its primary key. -/
structure SearchTables (Extra : Type) where
  messages : StoredMessages
  conversations : StoredConversations Extra
  distinctMessages : Table.Distinct StoredMessage.id messages
  distinctConversations : conversations.Distinct

def effectivePage (page : UInt32) : UInt32 := if page = 0 then 1 else page

def effectiveSize (pageSize : UInt32) : UInt32 := if pageSize = 0 then 20 else pageSize

/-- A product or a sum of `search_messages` does not fit into `u32`. -/
def SearchOverflows (page pageSize : UInt32) : Prop :=
  UInt32.size ≤ (effectivePage page - 1).toNat * (effectiveSize pageSize).toNat ∨
    UInt32.size ≤ (effectiveSize pageSize).toNat + 1

instance (page pageSize : UInt32) : Decidable (SearchOverflows page pageSize) :=
  inferInstanceAs (Decidable (_ ∨ _))

theorem toNat_effectivePage {page : UInt32} : (effectivePage page).toNat = max 1 page.toNat := by
  unfold effectivePage
  split
  · next h => rw [h]; rfl
  · next h =>
    have hpos : 0 < page.toNat := Nat.pos_of_ne_zero fun h0 => h (UInt32.toNat_inj.mp h0)
    exact (max_eq_right hpos).symm

theorem effectivePage_pos {page : UInt32} : 0 < (effectivePage page).toNat := by
  rw [toNat_effectivePage]
  exact Nat.lt_of_lt_of_le Nat.one_pos (le_max_left _ _)

theorem effectiveSize_pos {pageSize : UInt32} : 0 < (effectiveSize pageSize).toNat := by
  unfold effectiveSize
  split
  · decide
  · next h => exact Nat.pos_of_ne_zero fun h0 => h (UInt32.toNat_inj.mp h0)

theorem toNat_effectivePage_sub {page : UInt32} :
    (effectivePage page - 1).toNat = (effectivePage page).toNat - 1 :=
  UInt32.toNat_sub_of_le _ _ (UInt32.le_iff_toNat_le.mpr effectivePage_pos)

namespace SearchTables

section Search

variable {Extra : Type} (tables : SearchTables Extra)
  /- The operator `LIKE`, of a text and a pattern. -/
  (like : String → String → Bool) (userId keyword : String)

def likePattern (keyword : String) : String := "%" ++ keyword ++ "%"

/-- The row of a message in `FROM messages m INNER JOIN conversations c ON m.conversation_id = c.id
WHERE c.user_id = ? AND m.content LIKE ?`: the key of the conversations leaves one at most. -/
def joinRow (m : StoredMessage) : Option (MessageSearchRow Extra) :=
  (tables.conversations.byId m.conversationId).bind fun c =>
    if c.userId = userId ∧ like m.content (likePattern keyword) then some (.select m c) else none

def joined : List (MessageSearchRow Extra) :=
  tables.messages.filterMap (tables.joinRow like userId keyword)

/-- What `ORDER BY m.created_at DESC` may make of the rows. -/
abbrev SearchOrder : Type :=
  { l // Arranges MessageSearchRow.createdAt l (tables.joined like userId keyword) }

variable {tables like userId keyword} in
/-- The sums and the product are those of `u32`, and wrap around. -/
def searchMessages (order : tables.SearchOrder like userId keyword) (page pageSize : UInt32) :
    PaginatedResult (MessageSearchRow Extra) :=
  let offset := (effectivePage page - 1) * effectiveSize pageSize
  let fetchLimit := effectiveSize pageSize + 1
  let rows := (order.1.drop offset.toNat).take fetchLimit.toNat
  let hasMore : Bool := effectiveSize pageSize < UInt32.ofNat rows.length
  { items := if hasMore then rows.take (effectiveSize pageSize).toNat else rows
    total := (tables.joined like userId keyword).length
    hasMore }

structure SearchMessagesQuery where
  keyword : String
  page : Option UInt32 := none
  pageSize : Option UInt32 := none

inductive SearchError where
  | badRequest (reason : String)
  | internal (reason : String)

/-- `search_messages` of the service; `toItem` is `search_row_to_item`. -/
def serviceSearch {Item : Type} (toItem : MessageSearchRow Extra → Except SearchError Item)
    (query : SearchMessagesQuery) (order : tables.SearchOrder like userId query.keyword) :
    Except SearchError (PaginatedResult Item) :=
  if (trim query.keyword).isEmpty then .error (.badRequest "keyword must not be empty")
  else
    let result := searchMessages order (query.page.getD 1) (query.pageSize.getD 20)
    (result.items.mapM toItem).map fun items =>
      { items, total := result.total, hasMore := result.hasMore }

def Matches (m : StoredMessage) : Prop :=
  ∃ c ∈ tables.conversations, c.id = m.conversationId ∧ c.userId = userId ∧
    like m.content (likePattern keyword) = true

instance (m : StoredMessage) : Decidable (tables.Matches like userId keyword m) := by
  unfold Matches
  infer_instance

def matching : StoredMessages := tables.messages.filter fun m => tables.Matches like userId keyword m

def pagesUpTo (last : UInt32) : List UInt32 :=
  (List.range (effectivePage last).toNat).map fun k => UInt32.ofNat (k + 1)

/-- The pages of one size, up to a last one, are the messages that match. -/
structure PagesPartition (pageSize last : UInt32) : Prop where
  evaluates : ∀ page ≤ last, ¬SearchOverflows page pageSize
  exactly_once : ∀ order : UInt32 → tables.SearchOrder like userId keyword,
    ((pagesUpTo last).flatMap fun page =>
        (searchMessages (order page) page pageSize).items.map MessageSearchRow.messageId).Perm
      ((tables.matching like userId keyword).map StoredMessage.id)
  becomes_empty : ∀ order : tables.SearchOrder like userId keyword,
    (searchMessages order last pageSize).items = []
  has_more_iff : ∀ order : UInt32 → tables.SearchOrder like userId keyword, ∀ page ≤ last,
    (searchMessages (order page) page pageSize).hasMore = true ↔
      ∃ later ≤ last, effectivePage page < later ∧
        (searchMessages (order later) later pageSize).items ≠ []
  total_eq : ∀ order : tables.SearchOrder like userId keyword, ∀ page ≤ last,
    (searchMessages order page pageSize).total = (tables.matching like userId keyword).length

/-- The numbers fit, the pages before the last have room for all that match, and no page ends among
messages of one time. -/
structure PagesFit (pageSize last : UInt32) : Prop where
  fetches : (effectiveSize pageSize).toNat + 1 < UInt32.size
  offsets : ((effectivePage last).toNat - 1) * (effectiveSize pageSize).toNat < UInt32.size
  room : (tables.matching like userId keyword).length ≤
    ((effectivePage last).toNat - 1) * (effectiveSize pageSize).toNat
  apart : ∀ k, ¬Splits StoredMessage.createdAt (tables.matching like userId keyword)
    (k * (effectiveSize pageSize).toNat)

variable {tables like userId keyword} {order : tables.SearchOrder like userId keyword}
  {page pageSize last : UInt32} {m : StoredMessage}

theorem joinRow_of_matches (h : tables.Matches like userId keyword m) :
    ∃ c, tables.joinRow like userId keyword m = some (.select m c) := by
  obtain ⟨c, hc, hid, hcond⟩ := h
  have hfind : tables.conversations.byId m.conversationId = some c :=
    (Table.find_eq_some tables.distinctConversations).mpr ⟨hc, hid⟩
  refine ⟨c, ?_⟩
  rw [joinRow, hfind, Option.bind_some, if_pos hcond]

theorem joinRow_of_not_matches (h : ¬tables.Matches like userId keyword m) :
    tables.joinRow like userId keyword m = none := by
  unfold joinRow
  cases hfind : tables.conversations.byId m.conversationId with
  | none => rfl
  | some c =>
    have hcond : ¬(c.userId = userId ∧ like m.content (likePattern keyword) = true) := fun hcond =>
      h ⟨c, Table.mem_of_find hfind, Table.key_of_find hfind, hcond⟩
    rw [Option.bind_some, if_neg hcond]

/-- The rows of the join are those of the messages that match. -/
theorem joined_map {γ : Type} {f : MessageSearchRow Extra → γ} {g : StoredMessage → γ}
    (h : ∀ m c, f (.select m c) = g m) :
    (tables.joined like userId keyword).map f = (tables.matching like userId keyword).map g := by
  unfold joined matching
  induction tables.messages with
  | nil => rfl
  | cons m ms ih =>
    by_cases hm : tables.Matches like userId keyword m
    · obtain ⟨c, hrow⟩ := joinRow_of_matches hm
      rw [List.filterMap_cons_some hrow, List.filter_cons_of_pos (by simpa using hm),
        List.map_cons, List.map_cons, h, ih]
    · rw [List.filterMap_cons_none (joinRow_of_not_matches hm),
        List.filter_cons_of_neg (by simpa using hm), ih]

theorem joined_ids : (tables.joined like userId keyword).map MessageSearchRow.messageId =
    (tables.matching like userId keyword).map StoredMessage.id := joined_map fun _ _ => rfl

theorem joined_length :
    (tables.joined like userId keyword).length = (tables.matching like userId keyword).length := by
  rw [← List.length_map, joined_ids, List.length_map]

theorem splits_joined {n : ℕ} :
    Splits MessageSearchRow.createdAt (tables.joined like userId keyword) n ↔
      Splits StoredMessage.createdAt (tables.matching like userId keyword) n :=
  splits_congr (joined_map fun _ _ => rfl)

theorem forall₂_of_mapM {Row Item : Type} {toItem : Row → Except SearchError Item} {rows : List Row}
    {items : List Item} (h : rows.mapM toItem = .ok items) :
    List.Forall₂ (fun row item => toItem row = .ok item) rows items := by
  induction rows generalizing items with
  | nil =>
    cases h
    exact .nil
  | cons row rows ih =>
    rw [List.mapM_cons] at h
    cases hrow : toItem row with
    | error e =>
      rw [hrow] at h
      cases h
    | ok item =>
      cases hrest : rows.mapM toItem with
      | error e =>
        rw [hrow, hrest] at h
        cases h
      | ok rest =>
        rw [hrow, hrest] at h
        cases h
        exact .cons hrow (ih hrest)

theorem nodup_matching : ((tables.matching like userId keyword).map StoredMessage.id).Nodup :=
  List.Nodup.sublist (List.filter_sublist.map _) tables.distinctMessages

/-- Without an overflow a page is cut at its offset, and there is more if it does not end with the
last row. -/
theorem searchMessages_eq (h : ¬SearchOverflows page pageSize) :
    (searchMessages order page pageSize).items =
        OffsetPages.page (effectiveSize pageSize).toNat ((effectivePage page).toNat - 1) order.1 ∧
      ((searchMessages order page pageSize).hasMore = true ↔
        (effectivePage page).toNat * (effectiveSize pageSize).toNat <
          (tables.matching like userId keyword).length) := by
  have hfetch : (effectiveSize pageSize).toNat + 1 < 2 ^ 32 := not_le.mp fun hle => h (.inr hle)
  have hproduct : (effectivePage page - 1).toNat * (effectiveSize pageSize).toNat < 2 ^ 32 :=
    not_le.mp fun hle => h (.inl hle)
  have hoffset : ((effectivePage page - 1) * effectiveSize pageSize).toNat =
      ((effectivePage page).toNat - 1) * (effectiveSize pageSize).toNat := by
    rw [UInt32.toNat_mul, Nat.mod_eq_of_lt hproduct, toNat_effectivePage_sub]
  have hlength : order.1.length = (tables.matching like userId keyword).length :=
    order.2.perm.length_eq.trans joined_length
  have hpos : 0 < (effectivePage page).toNat := effectivePage_pos
  obtain ⟨hmore, -, hall⟩ := cut_one_more
    (order.1.drop (((effectivePage page).toNat - 1) * (effectiveSize pageSize).toNat)) hfetch
  have hrest : (effectiveSize pageSize).toNat <
        (order.1.drop (((effectivePage page).toNat - 1) * (effectiveSize pageSize).toNat)).length ↔
      (effectivePage page).toNat * (effectiveSize pageSize).toNat <
        (tables.matching like userId keyword).length := by
    obtain ⟨k, hk⟩ : ∃ k, (effectivePage page).toNat = k + 1 := ⟨_, (Nat.succ_pred hpos.ne').symm⟩
    rw [List.length_drop, hlength, hk, Nat.add_sub_cancel, Nat.succ_mul]
    omega
  unfold searchMessages OffsetPages.page
  dsimp only
  rw [hoffset]
  refine ⟨?_, by rw [decide_eq_true_eq, hmore, hrest]⟩
  by_cases hlt : (effectiveSize pageSize).toNat <
      (order.1.drop (((effectivePage page).toNat - 1) * (effectiveSize pageSize).toNat)).length
  · have hle : (effectiveSize pageSize).toNat ≤ (effectiveSize pageSize + 1).toNat := by
      rw [UInt32.toNat_add, UInt32.toNat_one, Nat.mod_eq_of_lt hfetch]
      exact Nat.le_succ _
    rw [if_pos (decide_eq_true (hmore.mpr hlt)), List.take_take, min_eq_left hle]
  · rw [if_neg (by simpa using fun hl => hlt (hmore.mp hl)), hall (not_lt.mp hlt)]

theorem items_eq_nil_iff (h : ¬SearchOverflows page pageSize) :
    (searchMessages order page pageSize).items = [] ↔
      (tables.matching like userId keyword).length ≤
        ((effectivePage page).toNat - 1) * (effectiveSize pageSize).toNat := by
  have hsize : 0 < (effectiveSize pageSize).toNat := effectiveSize_pos
  rw [(searchMessages_eq h).1, OffsetPages.page, ← List.length_eq_zero_iff, List.length_take,
    List.length_drop, order.2.perm.length_eq, joined_length]
  omega

theorem not_overflows_of_le (hpage : (effectivePage page).toNat ≤ (effectivePage last).toNat)
    (h : ¬SearchOverflows last pageSize) : ¬SearchOverflows page pageSize := by
  rintro (hproduct | hsum)
  · refine h (.inl (hproduct.trans ?_))
    rw [toNat_effectivePage_sub, toNat_effectivePage_sub]
    exact Nat.mul_le_mul_right _ (Nat.sub_le_sub_right hpage 1)
  · exact h (.inr hsum)

theorem effectivePage_le (hpage : page ≤ last) :
    (effectivePage page).toNat ≤ (effectivePage last).toNat := by
  rw [toNat_effectivePage, toNat_effectivePage]
  exact max_le_max_left 1 (UInt32.le_iff_toNat_le.mp hpage)

theorem effectivePage_ofNat {k : ℕ} (hk : k < (effectivePage last).toNat) :
    (effectivePage (UInt32.ofNat (k + 1))).toNat = k + 1 := by
  have hlt : k + 1 < UInt32.size := lt_of_le_of_lt hk (UInt32.toNat_lt_size _)
  rw [toNat_effectivePage, UInt32.toNat_ofNat_of_lt' hlt]
  omega

/-- The pages up to one that evaluates are cut from the orders of their requests. -/
theorem pages_eq (h : ¬SearchOverflows last pageSize)
    (order : UInt32 → tables.SearchOrder like userId keyword) :
    ((pagesUpTo last).flatMap fun page =>
        (searchMessages (order page) page pageSize).items.map MessageSearchRow.messageId) =
      ((List.range (effectivePage last).toNat).flatMap fun k =>
        OffsetPages.page (effectiveSize pageSize).toNat k (order (UInt32.ofNat (k + 1))).1).map
          MessageSearchRow.messageId := by
  rw [pagesUpTo, List.flatMap_map, List.map_flatMap]
  refine List.flatMap_congr fun k hk => ?_
  have hpage := effectivePage_ofNat (List.mem_range.mp hk)
  have hle : (effectivePage (UInt32.ofNat (k + 1))).toNat ≤ (effectivePage last).toNat := by
    rw [hpage]
    exact List.mem_range.mp hk
  rw [(searchMessages_eq (not_overflows_of_le hle h)).1, hpage, Nat.add_sub_cancel]

section

variable (h : tables.PagesFit like userId keyword pageSize last)
include h

theorem PagesFit.not_overflows :
    ¬SearchOverflows last pageSize := by
  rintro (hproduct | hsum)
  · rw [toNat_effectivePage_sub] at hproduct
    exact absurd h.offsets (not_lt.mpr hproduct)
  · exact absurd h.fetches (not_lt.mpr hsum)

/-- There is more after a page if a page up to the last one is not empty. -/
theorem PagesFit.has_more_iff (order : UInt32 → tables.SearchOrder like userId keyword)
    (hpage : page ≤ last) :
    (searchMessages (order page) page pageSize).hasMore = true ↔
      ∃ later ≤ last, effectivePage page < later ∧
        (searchMessages (order later) later pageSize).items ≠ [] := by
  have hfree := fun {page : UInt32} (hle : page ≤ last) =>
    not_overflows_of_le (effectivePage_le hle) h.not_overflows
  have hroom := h.room
  rw [(searchMessages_eq (hfree hpage)).2]
  constructor
  · intro hmore
    have hlt : (effectivePage page).toNat < (effectivePage last).toNat - 1 :=
      Nat.lt_of_mul_lt_mul_right (hmore.trans_le hroom)
    have hnext : (UInt32.ofNat ((effectivePage page).toNat + 1)).toNat =
        (effectivePage page).toNat + 1 :=
      UInt32.toNat_ofNat_of_lt' (lt_of_lt_of_le (b := (effectivePage last).toNat) (by omega)
        (UInt32.toNat_lt_size _).le)
    have hle : UInt32.ofNat ((effectivePage page).toNat + 1) ≤ last := by
      rw [UInt32.le_iff_toNat_le, hnext]
      rw [@toNat_effectivePage last] at hlt
      omega
    refine ⟨_, hle, UInt32.lt_iff_toNat_lt.mpr (by rw [hnext]; omega), ?_⟩
    rw [ne_eq, items_eq_nil_iff (hfree hle), not_le,
      effectivePage_ofNat (hlt.trans_le (Nat.sub_le _ _)), Nat.add_sub_cancel]
    exact hmore
  · rintro ⟨later, hle, hlt, hitems⟩
    rw [ne_eq, items_eq_nil_iff (hfree hle), not_le] at hitems
    have hlater := UInt32.lt_iff_toNat_lt.mp hlt
    refine lt_of_le_of_lt (Nat.mul_le_mul_right _ ?_) hitems
    rw [@toNat_effectivePage later]
    omega

/-- Where the numbers fit and no page ends among messages of one time, the pages are the messages
that match. -/
theorem PagesFit.partition :
    tables.PagesPartition like userId keyword pageSize last where
  evaluates := fun _ hle => not_overflows_of_le (effectivePage_le hle) h.not_overflows
  exactly_once := by
    intro order
    have hroom := h.room
    have hle : (effectivePage last).toNat - 1 ≤ (effectivePage last).toNat := Nat.sub_le _ _
    have hapart : ∀ k, ¬Splits MessageSearchRow.createdAt (tables.joined like userId keyword)
        (k * (effectiveSize pageSize).toNat) := fun k hk => h.apart k (splits_joined.mp hk)
    have hall := pages_perm (n := (effectivePage last).toNat)
      (fun k => (order (UInt32.ofNat (k + 1))).2) hapart (order last).2
    rw [List.take_of_length_le] at hall
    · rw [pages_eq h.not_overflows, ← joined_ids]
      exact (hall.trans (order last).2.perm).map _
    · rw [(order last).2.perm.length_eq, joined_length]
      exact hroom.trans (Nat.mul_le_mul_right _ hle)
  becomes_empty := fun _ => (items_eq_nil_iff h.not_overflows).mpr h.room
  has_more_iff := fun order _ hle => h.has_more_iff order hle
  total_eq := fun _ _ _ => joined_length

end

/-- Where a page ends among messages of one time, one of them may be on it and on the next. -/
theorem PagesPartition.apart (h : tables.PagesPartition like userId keyword pageSize last)
    (hfree : ¬SearchOverflows last pageSize)
    (hroom : (tables.matching like userId keyword).length ≤
      ((effectivePage last).toNat - 1) * (effectiveSize pageSize).toNat) (k : ℕ) :
    ¬Splits StoredMessage.createdAt (tables.matching like userId keyword)
      (k * (effectiveSize pageSize).toNat) := by
  intro hk
  have hbound : k * (effectiveSize pageSize).toNat < (tables.matching like userId keyword).length := by
    obtain ⟨t, -, hle⟩ := hk
    exact hle.trans_le List.countP_le_length
  have hlt : k < (effectivePage last).toNat - 1 := Nat.lt_of_mul_lt_mul_right (hbound.trans_le hroom)
  cases k with
  | zero =>
    obtain ⟨t, hneg, -⟩ := hk
    rw [Nat.zero_mul] at hneg
    exact absurd hneg (Nat.not_lt_zero _)
  | succ k =>
    obtain ⟨l, l', x, hl, hl', hx, hx'⟩ := (splits_joined.mpr hk).exists_repeated
    let order : UInt32 → tables.SearchOrder like userId keyword := fun page =>
      if page = UInt32.ofNat (k + 1) then ⟨l, hl⟩ else ⟨l', hl'⟩
    have hnodup := (h.exactly_once order).nodup_iff.mpr nodup_matching
    rw [pages_eq hfree, List.map_flatMap, List.nodup_flatMap] at hnodup
    have hdisjoint := List.pairwise_iff_getElem.mp hnodup.2 k (k + 1)
      (by rw [List.length_range]; omega) (by rw [List.length_range]; omega) (Nat.lt_succ_self k)
    rw [List.getElem_range, List.getElem_range] at hdisjoint
    have hnumber : ∀ {j : ℕ}, j < (effectivePage last).toNat → (UInt32.ofNat (j + 1)).toNat = j + 1 :=
      fun hj => UInt32.toNat_ofNat_of_lt' (lt_of_le_of_lt hj (UInt32.toNat_lt_size _))
    have hne : UInt32.ofNat (k + 1 + 1) ≠ UInt32.ofNat (k + 1) := fun heq => by
      have hnat := congrArg UInt32.toNat heq
      rw [hnumber (by omega), hnumber (by omega)] at hnat
      omega
    have hfirst : order (UInt32.ofNat (k + 1)) = ⟨l, hl⟩ := if_pos rfl
    have hsecond : order (UInt32.ofNat (k + 1 + 1)) = ⟨l', hl'⟩ := if_neg hne
    refine hdisjoint (a := x.messageId) (List.mem_map.mpr ⟨x, ?_, rfl⟩)
      (List.mem_map.mpr ⟨x, ?_, rfl⟩)
    · rw [hfirst]
      exact hx
    · rw [hsecond]
      exact hx'

/-- The pages of one size up to a last one are the messages that match exactly if the numbers fit,
the last page is behind them all and none ends among messages of one time. -/
theorem search_messages_partition (tables : SearchTables Extra) (like : String → String → Bool)
    (userId keyword : String) (pageSize last : UInt32) :
    tables.PagesPartition like userId keyword pageSize last ↔
      tables.PagesFit like userId keyword pageSize last := by
  constructor
  · intro h
    have hfree : ¬SearchOverflows last pageSize := h.evaluates last (UInt32.le_refl last)
    obtain ⟨l, hl⟩ := exists_arranges MessageSearchRow.createdAt
      (tables.joined like userId keyword)
    have hroom := (items_eq_nil_iff hfree).mp (h.becomes_empty ⟨l, hl⟩)
    exact
      { fetches := not_le.mp fun hle => hfree (.inr hle)
        offsets := by
          rw [← toNat_effectivePage_sub]
          exact not_le.mp fun hle => hfree (.inl hle)
        room := hroom
        apart := h.apart hfree hroom }
  · exact PagesFit.partition

end Search

/-- `LIKE` of a text and a keyword between two wildcards, both in one case. -/
def sampleLike (text pattern : String) : Bool :=
  pattern.toList.filter (· ≠ '%') <:+: text.toList

/-- Two messages of one conversation and of one time. -/
def sample : SearchTables String where
  messages :=
    [⟨"m1", "c1", some "m1", .other "text", "hello", some "right", some .finish, false, 1000⟩,
      ⟨"m2", "c1", some "m2", .other "text", "hello", some "left", some .finish, false, 1000⟩]
  conversations := [⟨"c1", "u1", "Chat", "acp", "{}", none, none, none, none, false, none, 900, 1000⟩]
  distinctMessages := by
    unfold Table.Distinct
    decide
  distinctConversations := List.nodup_singleton _

/-- Pages of one message each: the first message may come on both pages, and the second on none. -/
theorem equal_times_repeat : ¬sample.PagesPartition sampleLike "u1" "hello" 1 3 := by
  intro h
  have hfree : ¬SearchOverflows 3 1 := by decide
  refine h.apart hfree (by decide) 1 ⟨1000, ?_, ?_⟩
  · decide
  · decide

end SearchTables

end AionCore.Conversation
