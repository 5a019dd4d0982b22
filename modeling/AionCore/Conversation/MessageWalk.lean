import AionCore.Conversation.MessagePaging

/-!
# Conversations: a walk over the pages

Every page is a window of the visible messages in the order of their keys, its flags say whether
something is on either side, and a walk from any page to both ends makes up all of them, as long as
the ids are not empty and the rows can be read.
-/

namespace AionCore.Conversation

open Keyset

namespace StoredMessages

variable {rows : StoredMessages} {convId : String} {n : ℕ} {x : StoredMessage}
  {pre post items : List StoredMessage}

def history (rows : StoredMessages) (convId : String) : List StoredMessage :=
  ascending StoredMessage.key (visible rows convId)

theorem precedes_eq (cursor : MessagePageCursor) :
    precedes cursor = fun row : StoredMessage => decide (row.key < cursor.key) := by
  funext row
  refine decide_eq_decide.mpr ?_
  rw [StoredMessage.key, MessagePageCursor.key, MessagePageCursor.key, Prod.Lex.toLex_lt_toLex]
  rfl

theorem follows_eq (cursor : MessagePageCursor) :
    follows cursor = fun row : StoredMessage => decide (cursor.key < row.key) := by
  funext row
  refine decide_eq_decide.mpr ?_
  rw [MessagePageCursor.key, StoredMessage.key, MessagePageCursor.key, Prod.Lex.toLex_lt_toLex]
  constructor
  · exact Or.imp_right fun h => ⟨h.1.symm, h.2⟩
  · exact Or.imp_right fun h => ⟨h.1.symm, h.2⟩

theorem nodup_visible (convId : String) (hd : Table.Distinct StoredMessage.id rows) :
    ((visible rows convId).map StoredMessage.key).Nodup := by
  have ids : ((visible rows convId).map StoredMessage.id).Nodup :=
    List.Nodup.sublist (List.filter_sublist.map _) hd
  have keyed : (visible rows convId).map StoredMessage.id =
      ((visible rows convId).map StoredMessage.key).map fun k => (ofLex k).2 := by
    rw [List.map_map]
    rfl
  rw [keyed] at ids
  exact ids.of_map _

theorem increasing_history (convId : String) (hd : Table.Distinct StoredMessage.id rows) :
    Increasing StoredMessage.key (history rows convId) :=
  increasing_ascending (nodup_visible convId hd)

section Queries

variable (hd : Table.Distinct StoredMessage.id rows)
include hd

theorem ascending_select (convId : String) (p : StoredMessage → Bool) :
    ascending StoredMessage.key ((visible rows convId).filter p) =
      (history rows convId).filter p :=
  ascending_filter (nodup_visible convId hd) p

theorem reverse_take_select (convId : String) (n : ℕ) (p : StoredMessage → Bool) :
    ((descending StoredMessage.key ((visible rows convId).filter p)).take n).reverse =
      ((history rows convId).filter p).rtake n := by
  rw [reverse_take_descending (nodup_map_filter (nodup_visible convId hd) p), ascending_select hd]

theorem filter_precedes (h : history rows convId = pre ++ x :: post) :
    (history rows convId).filter (precedes x.cursor) = pre := by
  have increasing := increasing_history convId hd
  rw [h] at increasing
  rw [precedes_eq, h]
  exact increasing.filter_lt

theorem filter_follows (h : history rows convId = pre ++ x :: post) :
    (history rows convId).filter (follows x.cursor) = post := by
  have increasing := increasing_history convId hd
  rw [h] at increasing
  rw [follows_eq, h]
  exact increasing.filter_gt

theorem pageRows_latest :
    pageRows rows convId n .initialLatest = .ok ((history rows convId).rtake n) := by
  have reversed := reverse_take_descending (nodup_visible convId hd) n
  simp only [pageRows, List.take_take, Nat.min_eq_left (Nat.le_succ n)]
  rw [reversed]
  rfl

theorem pageRows_before (h : history rows convId = pre ++ x :: post) :
    pageRows rows convId n (.before x.cursor) = .ok (pre.rtake n) := by
  simp only [pageRows, List.take_take, Nat.min_eq_left (Nat.le_succ n)]
  rw [reverse_take_select hd, filter_precedes hd h]

theorem pageRows_after (h : history rows convId = pre ++ x :: post) :
    pageRows rows convId n (.after x.cursor) = .ok (post.take n) := by
  simp only [pageRows, List.take_take, Nat.min_eq_left (Nat.le_succ n)]
  rw [ascending_select hd, filter_follows hd h]

end Queries

section Anchor

theorem anchorTakes_le {limit : ℕ} (before after : ℕ) (h : 1 ≤ limit) :
    (anchorTakes limit before after).1 ≤ before ∧ (anchorTakes limit before after).2 ≤ after ∧
      1 + (anchorTakes limit before after).1 + (anchorTakes limit before after).2 ≤ limit := by
  unfold anchorTakes
  extract_lets beforeTarget afterTarget beforeTake afterTake remaining extraAfter extraBefore
  have hbefore : beforeTake ≤ before := Nat.min_le_left _ _
  have hafter : afterTake ≤ after := Nat.min_le_left _ _
  have hextraAfter : extraAfter ≤ after - afterTake := Nat.min_le_left _ _
  have hextraBefore : extraBefore ≤ before - beforeTake := Nat.min_le_left _ _
  have hroom : extraAfter ≤ remaining := Nat.min_le_right _ _
  have hrest : extraBefore ≤ remaining - extraAfter := Nat.min_le_right _ _
  -- the anchor and its two halves fit into the page
  have hfits : 1 + beforeTake + afterTake ≤ limit := by
    omega
  have hremaining : remaining = limit - (1 + beforeTake + afterTake) := rfl
  clear_value beforeTake afterTake remaining extraAfter extraBefore
  omega

theorem rtake_rtake {l : List StoredMessage} {k m : ℕ} (h : k ≤ m) :
    (l.rtake m).rtake k = l.rtake k := by
  simp only [List.rtake, List.drop_drop, List.length_drop]
  congr 1
  omega

/-- An anchor page has rows of both sides that are next to the anchor. -/
theorem anchorRows_eq (hd : Table.Distinct StoredMessage.id rows)
    (h : history rows convId = pre ++ x :: post) (hn : 1 ≤ n) :
    ∃ b a, 1 + b + a ≤ n ∧ anchorRows rows convId n x = pre.rtake b ++ x :: post.take a := by
  have hbefore := reverse_take_select hd convId n (precedes x.cursor)
  rw [filter_precedes hd h] at hbefore
  have hafter := ascending_select hd convId (follows x.cursor)
  rw [filter_follows hd h] at hafter
  obtain ⟨hb, -, hlimit⟩ := anchorTakes_le (pre.rtake n).length (post.take n).length hn
  refine ⟨_, _, hlimit, ?_⟩
  simp only [anchorRows]
  rw [hbefore, hafter, List.take_take]
  congr 1
  · exact rtake_rtake (by omega)
  · congr 2
    omega

end Anchor

section Window

theorem pageWithFlags_items : (pageWithFlags rows convId items).items = items := by
  unfold pageWithFlags
  split <;> rfl

/-- A page is a window of the history, and its flags tell whether rows are on either side. -/
structure IsWindow (rows : StoredMessages) (convId : String) (page : MessagePageResult)
    (pre post : List StoredMessage) : Prop where
  split : history rows convId = pre ++ page.items ++ post
  before : page.hasMoreBefore = true ↔ pre ≠ []
  after : page.hasMoreAfter = true ↔ post ≠ []

theorem exists_visible_iff (p : StoredMessage → Bool) :
    (visible rows convId).any p = true ↔ (history rows convId).filter p ≠ [] := by
  rw [List.any_eq_true, List.ne_nil_iff_exists_cons]
  constructor
  · rintro ⟨m, hm, hp⟩
    have hmem : m ∈ (history rows convId).filter p := List.mem_filter.mpr ⟨mem_ascending.mpr hm, hp⟩
    exact List.exists_cons_of_ne_nil (List.ne_nil_of_mem hmem)
  · rintro ⟨m, rest, heq⟩
    have hmem : m ∈ (history rows convId).filter p := by
      rw [heq]
      exact List.mem_cons_self
    obtain ⟨hm, hp⟩ := List.mem_filter.mp hmem
    exact ⟨m, mem_ascending.mp hm, hp⟩

variable (hd : Table.Distinct StoredMessage.id rows)
include hd

theorem ascending_of_window (h : history rows convId = pre ++ items ++ post) :
    ascending StoredMessage.key items = items := by
  have increasing := increasing_history convId hd
  rw [h] at increasing
  exact ascending_eq_self (List.pairwise_append.mp (List.pairwise_append.mp increasing).1).2.1

theorem isWindow_pageWithFlags (h : history rows convId = pre ++ items ++ post)
    (hempty : items = [] → history rows convId = []) :
    IsWindow rows convId (pageWithFlags rows convId items) pre post := by
  cases hitems : items with
  | nil =>
    have hnil : pre ++ items ++ post = [] := h.symm.trans (hempty hitems)
    obtain ⟨hpre, hpost⟩ := List.append_eq_nil_iff.mp hnil
    have hpre := (List.append_eq_nil_iff.mp hpre).1
    rw [← hitems]
    refine ⟨by rw [pageWithFlags_items]; exact h, ?_, ?_⟩
    · simp [pageWithFlags, hitems, hpre]
    · simp [pageWithFlags, hitems, hpost]
  | cons first rest =>
    obtain ⟨init, last, hlast⟩ : ∃ init last, items = init ++ [last] :=
      ⟨items.dropLast, items.getLast (by simp [hitems]),
        (List.dropLast_append_getLast _).symm⟩
    have hhead : items.head? = some first := by rw [hitems]; rfl
    have hgetLast : items.getLast? = some last := by rw [hlast]; simp
    have first_split : history rows convId = pre ++ first :: (rest ++ post) := by
      rw [h, hitems]
      simp
    have last_split : history rows convId = (pre ++ init) ++ last :: post := by
      rw [h, hlast]
      simp
    have flags : pageWithFlags rows convId items =
        ⟨items, visibleMessageExistsBefore rows convId first.cursor,
          visibleMessageExistsAfter rows convId last.cursor⟩ := by
      unfold pageWithFlags
      rw [hhead, hgetLast]
    rw [← hitems, flags]
    refine ⟨h, ?_, ?_⟩
    · rw [← filter_precedes hd first_split]
      exact exists_visible_iff _
    · rw [← filter_follows hd last_split]
      exact exists_visible_iff _

theorem listMessagesPage_window {limit : ℕ} {direction : MessagePageDirection}
    (hrows : pageRows rows convId (max limit 1) direction = .ok items)
    (h : history rows convId = pre ++ items ++ post)
    (hempty : items = [] → history rows convId = []) :
    ∃ page, listMessagesPage rows convId limit direction = .ok page ∧ page.items = items ∧
      IsWindow rows convId page pre post := by
  have window := isWindow_pageWithFlags hd h hempty
  refine ⟨_, ?_, pageWithFlags_items, window⟩
  unfold listMessagesPage
  rw [hrows]
  simp only [Except.map]
  rw [ascending_of_window hd h]

end Window

end StoredMessages

open StoredMessages

section Service

variable {codec : CursorCodec} {serde : SerdeErrors} {db : MessageDb} {userId convId : String}
  {query : ListMessagesQuery} {page : MessagePageResult}

theorem stripPrefix_append (pre text : String) : stripPrefix pre (pre ++ text) = some text := by
  have hprefix : pre.toList.isPrefixOf (pre ++ text).toList = true := by
    rw [List.isPrefixOf_iff_prefix, String.toList_append]
    exact List.prefix_append _ _
  unfold stripPrefix
  rw [if_pos hprefix, String.toList_append, List.drop_left, String.ofList_toList]

theorem decode_encode_cursor (cursor : MessagePageCursor) :
    decodeMessageCursor codec (encodeMessageCursor codec cursor) =
      if cursor.id = "" then .error invalidMessageCursor else .ok cursor := by
  unfold decodeMessageCursor encodeMessageCursor
  rw [stripPrefix_append, Option.bind_some, codec.decode_encode]

def StoredMessage.Readable (serde : SerdeErrors) (row : StoredMessage) : Prop :=
  rowToMessageResponse serde row = .ok row

instance (row : StoredMessage) : Decidable (row.Readable serde) := by
  unfold StoredMessage.Readable
  infer_instance

theorem mapM_readable {items : List StoredMessage} (h : ∀ item ∈ items, item.Readable serde) :
    items.mapM (rowToMessageResponse serde) = .ok items := by
  induction items with
  | nil => rfl
  | cons item items ih =>
    rw [List.mapM_cons, h item List.mem_cons_self,
      ih fun item' hitem => h item' (List.mem_cons_of_mem _ hitem)]
    rfl

/-- The response for a page. -/
def MessagePageResult.response (codec : CursorCodec) (page : MessagePageResult) :
    MessageListResponse where
  items := page.items
  oldestCursor := page.items.head?.map fun row => encodeMessageCursor codec row.cursor
  newestCursor := page.items.getLast?.map fun row => encodeMessageCursor codec row.cursor
  hasMoreBefore := page.hasMoreBefore
  hasMoreAfter := page.hasMoreAfter

theorem listMessages_ok {direction : MessagePageDirection} (howner : db.owner convId = some userId)
    (hcount : query.locatorCount ≤ 1) (hdirection : query.direction codec = .ok direction)
    (hpage : db.rows.listMessagesPage convId (effectiveMessageLimit query.limit) direction =
      .ok page)
    (hread : ∀ item ∈ page.items, item.Readable serde) :
    listMessages codec serde db userId convId query = .ok (page.response codec) := by
  unfold listMessages
  rw [if_neg (not_not.mpr howner), if_neg (by omega), hdirection]
  simp only [bind, Except.bind, hpage, Except.mapError, mapM_readable hread]
  rfl

end Service

section Walk

variable {codec : CursorCodec} {serde : SerdeErrors} {userId convId : String}

/-- Follow the pages from one on as long as there are more, the requests being counted; `none` if
the fuel runs out. -/
def followPages (request : ℕ → ListMessagesQuery → Except MessageListError MessageListResponse)
    (more : MessageListResponse → Bool) (query : MessageListResponse → ListMessagesQuery) :
    ℕ → ℕ → MessageListResponse → Option (Except MessageListError (List MessageListResponse))
  | fuel, k, page =>
    if more page then
      match fuel with
      | 0 => none
      | fuel + 1 =>
        match request k (query page) with
        | .error err => some (.error err)
        | .ok next =>
          (followPages request more query fuel (k + 1) next).map fun rest =>
            rest.map fun pages => next :: pages
    else some (.ok [])

def glued (glue : List StoredMessage → List StoredMessage → List StoredMessage)
    (pages : List MessageListResponse) : List StoredMessage :=
  pages.foldr (fun page rest => glue page.items rest) []

variable {left : List StoredMessage}

/-- Pages each of which takes its rows from one end of what is left make up all that is left. -/
theorem followPages_spec
    (request : ℕ → ListMessagesQuery → Except MessageListError MessageListResponse)
    (more : MessageListResponse → Bool) (query : MessageListResponse → ListMessagesQuery)
    (glue : List StoredMessage → List StoredMessage → List StoredMessage)
    (At : ℕ → MessageListResponse → List StoredMessage → Prop)
    (Good : ℕ → MessageListResponse → Prop)
    (hmore : ∀ k page left, At k page left → (more page = true ↔ left ≠ []))
    (hnext : ∀ k page left, At k page left → left ≠ [] → ∃ next left',
      request k (query page) = .ok next ∧ At (k + 1) next left' ∧ left'.length < left.length ∧
        left = glue next.items left' ∧ Good k next)
    {k : ℕ} {page : MessageListResponse} (h : At k page left) :
    ∃ pages, (∀ fuel, left.length ≤ fuel →
        followPages request more query fuel k page = some (.ok pages)) ∧
      glued glue pages = left ∧ ∀ i p, pages[i]? = some p → Good (k + i) p := by
  induction hlen : left.length using Nat.strong_induction_on generalizing k page left with
  | _ n ih =>
    by_cases hleft : left = []
    · have hstop : ¬more page = true := fun hm => (hmore k page left h).mp hm hleft
      refine ⟨[], fun fuel _ => ?_, hleft.symm, fun i p hp => (by simp at hp)⟩
      unfold followPages
      rw [if_neg hstop]
    · obtain ⟨next, left', hrequest, hat, hlt, hglue, hgood⟩ := hnext k page left h hleft
      obtain ⟨pages, hfollow, hpages, hall⟩ := ih left'.length (by omega) hat rfl
      refine ⟨next :: pages, fun fuel hfuel => ?_, ?_, ?_⟩
      · obtain ⟨fuel, rfl⟩ : ∃ m, fuel = m + 1 := ⟨fuel - 1, by omega⟩
        unfold followPages
        rw [if_pos ((hmore k page left h).mpr hleft)]
        simp only [hrequest, hfollow fuel (by omega)]
        rfl
      · rw [hglue, ← hpages]
        rfl
      · intro i p hp
        cases i with
        | zero =>
          rw [List.getElem?_cons_zero] at hp
          exact Option.some.inj hp ▸ hgood
        | succ i =>
          rw [List.getElem?_cons_succ] at hp
          have hi := hall i p hp
          rwa [Nat.add_right_comm] at hi

def queryBefore (limit : ℕ) (page : MessageListResponse) : ListMessagesQuery :=
  { limit := some limit, before := page.oldestCursor }

def queryAfter (limit : ℕ) (page : MessageListResponse) : ListMessagesQuery :=
  { limit := some limit, after := page.newestCursor }

/-- The flags of a page tell whether a visible message is before all of its items, and after. -/
structure FlagsExact (rows : StoredMessages) (convId : String) (page : MessageListResponse) :
    Prop where
  before : page.hasMoreBefore = true ↔
    ∃ m ∈ visible rows convId, ∀ item ∈ page.items, m.key < item.key
  after : page.hasMoreAfter = true ↔
    ∃ m ∈ visible rows convId, ∀ item ∈ page.items, item.key < m.key

variable {rows : StoredMessages} {page : MessagePageResult} {pre post : List StoredMessage}

theorem StoredMessages.IsWindow.flagsExact (h : IsWindow rows convId page pre post)
    (hd : Table.Distinct StoredMessage.id rows)
    (hempty : page.items = [] → history rows convId = []) :
    FlagsExact rows convId (page.response codec) := by
  have increasing := increasing_history convId hd
  rw [h.split] at increasing
  obtain ⟨hleft, -, hright⟩ := List.pairwise_append.mp increasing
  obtain ⟨-, -, hpre⟩ := List.pairwise_append.mp hleft
  have mem : ∀ m, m ∈ visible rows convId ↔ m ∈ pre ∨ m ∈ page.items ∨ m ∈ post := by
    intro m
    have hm : m ∈ visible rows convId ↔ m ∈ history rows convId := mem_ascending.symm
    rw [hm, h.split, List.mem_append, List.mem_append, or_assoc]
  have none_of_empty : page.items = [] → pre = [] ∧ post = [] := by
    intro hitems
    have hnil := h.split.symm.trans (hempty hitems)
    rw [hitems, List.append_nil] at hnil
    exact List.append_eq_nil_iff.mp hnil
  constructor
  · refine h.before.trans ⟨fun hne => ?_, ?_⟩
    · obtain ⟨m, hm⟩ := List.exists_mem_of_ne_nil pre hne
      exact ⟨m, (mem m).mpr (.inl hm), fun item hitem => hpre m hm item hitem⟩
    · rintro ⟨m, hm, hlt⟩ hnil
      cases hitems : page.items with
      | nil =>
        obtain ⟨hp, hq⟩ := none_of_empty hitems
        rw [mem, hp, hq, hitems] at hm
        simp at hm
      | cons x rest =>
        have hx : x ∈ page.items := hitems ▸ List.mem_cons_self
        obtain hm | hm | hm := (mem m).mp hm
        · rw [hnil] at hm
          cases hm
        · exact lt_irrefl _ (hlt m hm)
        · exact lt_asymm (hlt x hx) (hright x (List.mem_append_right _ hx) m hm)
  · refine h.after.trans ⟨fun hne => ?_, ?_⟩
    · obtain ⟨m, hm⟩ := List.exists_mem_of_ne_nil post hne
      exact ⟨m, (mem m).mpr (.inr (.inr hm)), fun item hitem =>
        hright item (List.mem_append_right _ hitem) m hm⟩
    · rintro ⟨m, hm, hlt⟩ hnil
      cases hitems : page.items with
      | nil =>
        obtain ⟨hp, hq⟩ := none_of_empty hitems
        rw [mem, hp, hq, hitems] at hm
        simp at hm
      | cons x rest =>
        have hx : x ∈ page.items := hitems ▸ List.mem_cons_self
        obtain hm | hm | hm := (mem m).mp hm
        · exact lt_asymm (hlt x hx) (hpre m hm x hx)
        · exact lt_irrefl _ (hlt m hm)
        · rw [hnil] at hm
          cases hm

/-- Messages that are appended with larger keys come after the history. -/
theorem history_append {extra : StoredMessages}
    (hd : Table.Distinct StoredMessage.id (rows ++ extra))
    (hlarger : ∀ m ∈ visible extra convId, ∀ m' ∈ visible rows convId, m'.key < m.key) :
    history (rows ++ extra) convId = history rows convId ++ history extra convId := by
  have hrows : Table.Distinct StoredMessage.id rows :=
    List.Nodup.sublist ((List.sublist_append_left rows extra).map _) hd
  have hextra : Table.Distinct StoredMessage.id extra :=
    List.Nodup.sublist ((List.sublist_append_right rows extra).map _) hd
  have increasing : Increasing StoredMessage.key (history rows convId ++ history extra convId) := by
    refine List.pairwise_append.mpr
      ⟨increasing_history convId hrows, increasing_history convId hextra, fun a ha b hb => ?_⟩
    exact hlarger b (mem_ascending.mp hb) a (mem_ascending.mp ha)
  have split : visible (rows ++ extra) convId = visible rows convId ++ visible extra convId :=
    List.filter_append ..
  refine (increasing_history convId hd).eq_of_perm increasing ?_
  have perm : (history (rows ++ extra) convId).Perm (visible (rows ++ extra) convId) :=
    List.perm_insertionSort _ _
  refine perm.trans ?_
  rw [split]
  exact (List.perm_insertionSort _ _).symm.append (List.perm_insertionSort _ _).symm

theorem effectiveMessageLimit_le {limit : ℕ} (h : 1 ≤ limit) :
    1 ≤ effectiveMessageLimit (some limit) ∧ effectiveMessageLimit (some limit) ≤ limit := by
  obtain ⟨n, rfl⟩ : ∃ n, limit = n + 1 := ⟨limit - 1, by omega⟩
  unfold effectiveMessageLimit maxMessagePageLimit
  simp only [Option.getD_some]
  omega

/-- A conversation that its owner pages through: the ids are distinct, and every visible message
has an id that is not empty and can be shown. -/
structure Listable (serde : SerdeErrors) (db : MessageDb) (userId convId : String) : Prop where
  owner : db.owner convId = some userId
  distinct : Table.Distinct StoredMessage.id db.rows
  plain : ∀ m ∈ visible db.rows convId, m.id ≠ "" ∧ m.Readable serde

/-- What a response has to do with the rows before it and after it. -/
structure Shows (codec : CursorCodec) (history : List StoredMessage) (page : MessageListResponse)
    (pre post : List StoredMessage) : Prop where
  split : history = pre ++ page.items ++ post
  empty : page.items = [] → history = []
  oldest : page.oldestCursor = page.items.head?.map fun row => encodeMessageCursor codec row.cursor
  newest : page.newestCursor =
    page.items.getLast?.map fun row => encodeMessageCursor codec row.cursor

variable {db : MessageDb} {limit : ℕ} {extra : StoredMessages}

theorem splitAt_end (l : List StoredMessage) (n : ℕ) : l.rdrop n ++ l.rtake n = l :=
  List.take_append_drop _ l

theorem rtake_ne_nil {l : List StoredMessage} {n : ℕ} (hl : l ≠ []) (hn : 1 ≤ n) :
    l.rtake n ≠ [] := by
  have hpos : 0 < l.length := List.length_pos_iff.mpr hl
  apply List.ne_nil_of_length_pos
  rw [List.rtake, List.length_drop]
  omega

theorem length_rtake_le (l : List StoredMessage) (n : ℕ) : (l.rtake n).length ≤ n := by
  rw [List.rtake, List.length_drop]
  omega

/-- A request whose rows are a window of the history is answered with that page. -/
theorem Listable.listMessages (h : Listable serde db userId convId) (codec : CursorCodec)
    (query : ListMessagesQuery) {direction : MessagePageDirection} {items : List StoredMessage}
    (hd : Table.Distinct StoredMessage.id (db.rows ++ extra))
    (hlimit : query.limit = some limit) (hpos : 1 ≤ limit) (hcount : query.locatorCount ≤ 1)
    (hdirection : query.direction codec = .ok direction)
    (hrows : pageRows (db.rows ++ extra) convId (effectiveMessageLimit (some limit)) direction =
      .ok items)
    (hsplit : history (db.rows ++ extra) convId = pre ++ items ++ post)
    (hempty : items = [] → history (db.rows ++ extra) convId = [])
    (hitems : ∀ item ∈ items, item ∈ history db.rows convId) :
    ∃ next, AionCore.Conversation.listMessages codec serde { db with rows := db.rows ++ extra }
        userId convId query = .ok next ∧ next.items = items ∧
      Shows codec (history (db.rows ++ extra) convId) next pre post ∧
      (next.hasMoreBefore = true ↔ pre ≠ []) ∧ (next.hasMoreAfter = true ↔ post ≠ []) ∧
      FlagsExact (db.rows ++ extra) convId next := by
  have hone : max (effectiveMessageLimit (some limit)) 1 = effectiveMessageLimit (some limit) :=
    max_eq_left (effectiveMessageLimit_le hpos).1
  rw [← hone] at hrows
  obtain ⟨page, hpage, rfl, window⟩ := listMessagesPage_window hd hrows hsplit hempty
  have hread : ∀ item ∈ page.items, item.Readable serde := fun item hitem =>
    (h.plain item (mem_ascending.mp (hitems item hitem))).2
  refine ⟨page.response codec, ?_, rfl, ⟨window.split, hempty, rfl, rfl⟩, window.before,
    window.after, window.flagsExact hd hempty⟩
  refine listMessages_ok ?_ hcount hdirection ?_ hread
  · exact h.owner
  · rw [hlimit]
    exact hpage

theorem direction_before {x : StoredMessage} (hx : x.id ≠ "") {query : ListMessagesQuery}
    (hquery : query.before = some (encodeMessageCursor codec x.cursor)) :
    query.direction codec = .ok (.before x.cursor) := by
  have hid : x.cursor.id ≠ "" := hx
  unfold ListMessagesQuery.direction
  rw [hquery]
  simp only [decode_encode_cursor, if_neg hid]
  rfl

theorem direction_after {x : StoredMessage} (hx : x.id ≠ "") {query : ListMessagesQuery}
    (hbefore : query.before = none)
    (hquery : query.after = some (encodeMessageCursor codec x.cursor)) :
    query.direction codec = .ok (.after x.cursor) := by
  have hid : x.cursor.id ≠ "" := hx
  unfold ListMessagesQuery.direction
  rw [hbefore, hquery]
  simp only [decode_encode_cursor, if_neg hid]
  rfl

section

variable (h : Listable serde db userId convId)
include h

/-- The page before a page, though messages were appended. -/
theorem Listable.pageBefore (hpos : 1 ≤ limit)
    (hd : Table.Distinct StoredMessage.id (db.rows ++ extra))
    (hlarger : ∀ m ∈ visible extra convId, ∀ m' ∈ visible db.rows convId, m'.key < m.key)
    {page : MessageListResponse} (hshows : Shows codec (history db.rows convId) page left post)
    (hleft : left ≠ []) :
    ∃ next left', AionCore.Conversation.listMessages codec serde
        { db with rows := db.rows ++ extra } userId convId (queryBefore limit page) = .ok next ∧
      Shows codec (history db.rows convId) next left' (page.items ++ post) ∧
      left = left' ++ next.items ∧ left'.length < left.length ∧
      (next.hasMoreBefore = true ↔ left' ≠ []) ∧ next.items.length ≤ limit ∧
      FlagsExact (db.rows ++ extra) convId next := by
  have hne : page.items ≠ [] := by
    intro hnil
    have hall := hshows.split.symm.trans (hshows.empty hnil)
    exact hleft (List.append_eq_nil_iff.mp (List.append_eq_nil_iff.mp hall).1).1
  obtain ⟨x, rest, hx⟩ := List.exists_cons_of_ne_nil hne
  have hsplit : history (db.rows ++ extra) convId =
      left ++ x :: (rest ++ post ++ history extra convId) := by
    rw [history_append hd hlarger, hshows.split, hx]
    simp
  have hmem : ∀ item ∈ left, item ∈ history db.rows convId := by
    intro item hitem
    rw [hshows.split]
    exact List.mem_append_left _ (List.mem_append_left _ hitem)
  have hxmem : x ∈ history db.rows convId := by
    rw [hshows.split, hx]
    simp
  let n := effectiveMessageLimit (some limit)
  obtain ⟨hn, hnle⟩ := effectiveMessageLimit_le hpos
  have window : history (db.rows ++ extra) convId = left.rdrop n ++ left.rtake n ++
      (x :: (rest ++ post ++ history extra convId)) := by
    rw [splitAt_end]
    exact hsplit
  have hcursor : (queryBefore limit page).before =
      some (encodeMessageCursor codec x.cursor) := by
    show page.oldestCursor = _
    rw [hshows.oldest, hx]
    rfl
  have hcount : (queryBefore limit page).locatorCount ≤ 1 := by
    unfold ListMessagesQuery.locatorCount
    rw [hcursor]
    exact le_refl 1
  obtain ⟨next, hnext, hitems, hshown, hmore, -, hflags⟩ := h.listMessages codec
    (queryBefore limit page) hd rfl hpos hcount
    (direction_before (h.plain x (mem_ascending.mp hxmem)).1 hcursor)
    (pageRows_before hd hsplit) window (fun hnil => absurd hnil (rtake_ne_nil hleft hn))
    fun item hitem => hmem item (List.mem_of_mem_drop hitem)
  have hnonempty : next.items ≠ [] := by
    rw [hitems]
    exact rtake_ne_nil hleft hn
  have hglue : left = left.rdrop n ++ next.items := by
    rw [hitems]
    exact (splitAt_end left n).symm
  refine ⟨next, left.rdrop n, hnext, ⟨?_, fun hnil => absurd hnil hnonempty, hshown.oldest,
    hshown.newest⟩, hglue, ?_, hmore, ?_, hflags⟩
  · rw [← hglue, hshows.split, List.append_assoc]
  · have hlen := congrArg List.length hglue
    rw [List.length_append] at hlen
    have hpos' := List.length_pos_iff.mpr hnonempty
    omega
  · rw [hitems]
    exact (length_rtake_le left n).trans hnle

/-- The page after a page. -/
theorem Listable.pageAfter (hpos : 1 ≤ limit) {page : MessageListResponse}
    (hshows : Shows codec (history db.rows convId) page pre left) (hleft : left ≠ []) :
    ∃ next left', AionCore.Conversation.listMessages codec serde db userId convId
        (queryAfter limit page) = .ok next ∧
      Shows codec (history db.rows convId) next (pre ++ page.items) left' ∧
      left = next.items ++ left' ∧ left'.length < left.length ∧
      (next.hasMoreAfter = true ↔ left' ≠ []) ∧ next.items.length ≤ limit ∧
      FlagsExact db.rows convId next := by
  have hne : page.items ≠ [] := by
    intro hnil
    have hall := hshows.split.symm.trans (hshows.empty hnil)
    exact hleft (List.append_eq_nil_iff.mp hall).2
  obtain ⟨init, x, hx⟩ : ∃ init x, page.items = init ++ [x] :=
    ⟨page.items.dropLast, page.items.getLast hne, (List.dropLast_append_getLast _).symm⟩
  have hd : Table.Distinct StoredMessage.id (db.rows ++ []) := by
    rw [List.append_nil]
    exact h.distinct
  have hsplit : history db.rows convId = (pre ++ init) ++ x :: left := by
    rw [hshows.split, hx]
    simp
  have hmem : ∀ item ∈ left, item ∈ history db.rows convId := by
    intro item hitem
    rw [hshows.split]
    exact List.mem_append_right _ hitem
  have hxmem : x ∈ history db.rows convId := by
    rw [hsplit]
    simp
  let n := effectiveMessageLimit (some limit)
  obtain ⟨hn, hnle⟩ := effectiveMessageLimit_le hpos
  have window : history (db.rows ++ []) convId = (pre ++ page.items) ++ left.take n ++ left.drop n := by
    rw [List.append_nil, List.append_assoc, List.take_append_drop, hshows.split]
  have hcursor : (queryAfter limit page).after = some (encodeMessageCursor codec x.cursor) := by
    show page.newestCursor = _
    rw [hshows.newest, hx]
    simp
  have hcount : (queryAfter limit page).locatorCount ≤ 1 := by
    unfold ListMessagesQuery.locatorCount
    rw [hcursor]
    exact le_refl 1
  have hrows : pageRows (db.rows ++ []) convId n (.after x.cursor) = .ok (left.take n) := by
    rw [List.append_nil]
    exact pageRows_after h.distinct hsplit
  have htake : left.take n ≠ [] := by
    have hpos' := List.length_pos_iff.mpr hleft
    apply List.ne_nil_of_length_pos
    rw [List.length_take]
    omega
  obtain ⟨next, hnext, hitems, hshown, -, hmore, hflags⟩ := h.listMessages codec
    (queryAfter limit page) hd rfl hpos hcount
    (direction_after (h.plain x (mem_ascending.mp hxmem)).1 rfl hcursor)
    hrows window (fun hnil => absurd hnil htake)
    fun item hitem => hmem item (List.mem_of_mem_take hitem)
  rw [List.append_nil] at hnext hshown hflags
  have hnonempty : next.items ≠ [] := by
    rw [hitems]
    exact htake
  have hglue : left = next.items ++ left.drop n := by
    rw [hitems]
    exact (List.take_append_drop n left).symm
  refine ⟨next, left.drop n, hnext, hshown, hglue, ?_, hmore, ?_, hflags⟩
  · have hlen := congrArg List.length hglue
    rw [List.length_append] at hlen
    have hpos' := List.length_pos_iff.mpr hnonempty
    omega
  · rw [hitems, List.length_take]
    exact (min_le_left _ _).trans hnle

/-- The first page: the latest one, or the one around an anchor. -/
theorem Listable.firstPage (codec : CursorCodec) (hpos : 1 ≤ limit) {start : Option String}
    (hstart : ∀ id, start = some id → ∃ m ∈ visible db.rows convId, m.id = id) :
    ∃ first pre post, AionCore.Conversation.listMessages codec serde db userId convId
        { limit := some limit, anchorMessageId := start } = .ok first ∧
      Shows codec (history db.rows convId) first pre post ∧
      (first.hasMoreBefore = true ↔ pre ≠ []) ∧ (first.hasMoreAfter = true ↔ post ≠ []) ∧
      first.items.length ≤ limit ∧ FlagsExact db.rows convId first ∧
      ∀ id, start = some id → ∃ item ∈ first.items, item.id = id := by
  have hd : Table.Distinct StoredMessage.id (db.rows ++ []) := by
    rw [List.append_nil]
    exact h.distinct
  let n := effectiveMessageLimit (some limit)
  obtain ⟨hn, hnle⟩ := effectiveMessageLimit_le hpos
  have hnil : history (db.rows ++ []) convId = history db.rows convId := by rw [List.append_nil]
  cases start with
  | none =>
    have hrows : pageRows (db.rows ++ []) convId n .initialLatest =
        .ok ((history db.rows convId).rtake n) := by
      rw [List.append_nil]
      exact pageRows_latest h.distinct
    have window : history (db.rows ++ []) convId =
        (history db.rows convId).rdrop n ++ (history db.rows convId).rtake n ++ [] := by
      rw [List.append_nil, List.append_nil, splitAt_end]
    have hempty : (history db.rows convId).rtake n = [] →
        history (db.rows ++ []) convId = [] := by
      intro htake
      rw [hnil]
      by_contra hne
      exact rtake_ne_nil hne hn htake
    obtain ⟨first, hfirst, hitems, hshown, hbefore, hafter, hflags⟩ := h.listMessages
      codec { limit := some limit } hd rfl hpos (Nat.zero_le 1) rfl hrows
      window hempty fun item hitem => List.mem_of_mem_drop hitem
    rw [hnil] at hshown
    rw [List.append_nil] at hfirst hflags
    refine ⟨first, _, _, hfirst, hshown, hbefore, hafter, ?_, hflags, fun id hid => (by cases hid)⟩
    rw [hitems]
    exact (length_rtake_le _ n).trans hnle
  | some id =>
    obtain ⟨m, hm, hid⟩ := hstart id rfl
    have hfind : (visible db.rows convId).find? (fun row => row.id = id) = some m := by
      have distinct : Table.Distinct StoredMessage.id (visible db.rows convId) :=
        List.Nodup.sublist (List.filter_sublist.map _) h.distinct
      exact (Table.find_eq_some distinct).mpr ⟨hm, hid⟩
    have hmem : m ∈ history db.rows convId := mem_ascending.mpr hm
    obtain ⟨pre, post, hsplit⟩ := List.append_of_mem hmem
    obtain ⟨b, a, hle, hanchor⟩ := anchorRows_eq h.distinct hsplit hn
    have hrows : pageRows (db.rows ++ []) convId n (.anchor id) =
        .ok (pre.rtake b ++ m :: post.take a) := by
      rw [List.append_nil]
      simp only [pageRows, hfind]
      rw [hanchor]
    have window : history (db.rows ++ []) convId =
        pre.rdrop b ++ (pre.rtake b ++ m :: post.take a) ++ post.drop a := by
      rw [hnil, hsplit, ← List.append_assoc, splitAt_end, List.append_assoc, List.cons_append,
        List.take_append_drop]
    have hall : ∀ item ∈ pre.rtake b ++ m :: post.take a, item ∈ history db.rows convId := by
      intro item hitem
      rw [← hnil, window]
      exact List.mem_append_left _ (List.mem_append_right _ hitem)
    obtain ⟨first, hfirst, hitems, hshown, hbefore, hafter, hflags⟩ := h.listMessages
      codec { limit := some limit, anchorMessageId := some id } hd rfl hpos
      (le_refl 1) rfl hrows window (fun hnil => (by simp at hnil)) hall
    rw [hnil] at hshown
    rw [List.append_nil] at hfirst hflags
    refine ⟨first, _, _, hfirst, hshown, hbefore, hafter, ?_, hflags, fun id' hid' => ?_⟩
    · have hb := length_rtake_le pre b
      have ha : (post.take a).length ≤ a := by
        rw [List.length_take]
        exact min_le_left _ _
      rw [hitems, List.length_append, List.length_cons]
      omega
    · obtain rfl := Option.some.inj hid'
      refine ⟨m, ?_, hid⟩
      rw [hitems]
      exact List.mem_append_right _ List.mem_cons_self

end

theorem glued_before (pages : List MessageListResponse) :
    glued (fun items rest => rest ++ items) pages =
      pages.reverse.flatMap MessageListResponse.items := by
  induction pages with
  | nil => rfl
  | cons page pages ih =>
    rw [List.reverse_cons, List.flatMap_append, ← ih]
    simp [glued]

theorem glued_after (pages : List MessageListResponse) :
    glued (fun items rest => items ++ rest) pages = pages.flatMap MessageListResponse.items := by
  induction pages with
  | nil => rfl
  | cons page pages ih =>
    rw [List.flatMap_cons, ← ih]
    rfl

def requestGrown (codec : CursorCodec) (serde : SerdeErrors) (db : MessageDb)
    (userId convId : String) (growth : ℕ → StoredMessages) (k : ℕ) :
    ListMessagesQuery → Except MessageListError MessageListResponse :=
  listMessages codec serde { db with rows := db.rows ++ growth k } userId convId

theorem Listable.walkBefore (h : Listable serde db userId convId) (hpos : 1 ≤ limit)
    {growth : ℕ → StoredMessages}
    (hd : ∀ k, Table.Distinct StoredMessage.id (db.rows ++ growth k))
    (hlarger : ∀ k, ∀ m ∈ visible (growth k) convId, ∀ m' ∈ visible db.rows convId,
      m'.key < m.key)
    {page : MessageListResponse} (hshows : Shows codec (history db.rows convId) page pre post)
    (hmore : page.hasMoreBefore = true ↔ pre ≠ []) :
    ∃ pages, (∀ fuel, pre.length ≤ fuel →
        followPages (requestGrown codec serde db userId convId growth)
          MessageListResponse.hasMoreBefore (queryBefore limit) fuel 0 page = some (.ok pages)) ∧
      pages.reverse.flatMap MessageListResponse.items = pre ∧
      ∀ i p, pages[i]? = some p → p.items.length ≤ limit ∧
        FlagsExact (db.rows ++ growth i) convId p := by
  obtain ⟨pages, hfollow, hglued, hall⟩ := followPages_spec
    (requestGrown codec serde db userId convId growth) MessageListResponse.hasMoreBefore
    (queryBefore limit) (fun items rest => rest ++ items)
    (fun _ page left => ∃ post, Shows codec (history db.rows convId) page left post ∧
      (page.hasMoreBefore = true ↔ left ≠ []))
    (fun k page => page.items.length ≤ limit ∧ FlagsExact (db.rows ++ growth k) convId page)
    (fun _ _ _ hat => hat.choose_spec.2)
    (by
      rintro k page left ⟨post, hshows, -⟩ hleft
      obtain ⟨next, left', hnext, hshown, hglue, hlt, hmore, hlen, hflags⟩ :=
        h.pageBefore hpos (hd k) (hlarger k) hshows hleft
      exact ⟨next, left', hnext, ⟨_, hshown, hmore⟩, hlt, hglue, hlen, hflags⟩)
    (k := 0) ⟨post, hshows, hmore⟩
  rw [glued_before] at hglued
  refine ⟨pages, hfollow, hglued, fun i p hp => ?_⟩
  have hgood := hall i p hp
  rwa [Nat.zero_add] at hgood

theorem Listable.walkAfter (h : Listable serde db userId convId) (hpos : 1 ≤ limit)
    {page : MessageListResponse} (hshows : Shows codec (history db.rows convId) page pre post)
    (hmore : page.hasMoreAfter = true ↔ post ≠ []) :
    ∃ pages, (∀ fuel, post.length ≤ fuel →
        followPages (fun _ => AionCore.Conversation.listMessages codec serde db userId convId)
          MessageListResponse.hasMoreAfter (queryAfter limit) fuel 0 page = some (.ok pages)) ∧
      pages.flatMap MessageListResponse.items = post ∧
      ∀ p ∈ pages, p.items.length ≤ limit ∧ FlagsExact db.rows convId p := by
  obtain ⟨pages, hfollow, hglued, hall⟩ := followPages_spec
    (fun _ => AionCore.Conversation.listMessages codec serde db userId convId)
    MessageListResponse.hasMoreAfter (queryAfter limit) (fun items rest => items ++ rest)
    (fun _ page left => ∃ pre, Shows codec (history db.rows convId) page pre left ∧
      (page.hasMoreAfter = true ↔ left ≠ []))
    (fun _ page => page.items.length ≤ limit ∧ FlagsExact db.rows convId page)
    (fun _ _ _ hat => hat.choose_spec.2)
    (by
      rintro k page left ⟨pre, hshows, -⟩ hleft
      obtain ⟨next, left', hnext, hshown, hglue, hlt, hmore, hlen, hflags⟩ :=
        h.pageAfter hpos hshows hleft
      exact ⟨next, left', hnext, ⟨_, hshown, hmore⟩, hlt, hglue, hlen, hflags⟩)
    (k := 0) ⟨pre, hshows, hmore⟩
  rw [glued_after] at hglued
  refine ⟨pages, hfollow, hglued, fun p hp => ?_⟩
  obtain ⟨i, hi⟩ := List.mem_iff_getElem?.mp hp
  exact hall i p hi

/-- From the latest page, or from the one around an anchor, the pages before it and after it make
up the history, each message once and in order, within the limit and with exact flags. -/
def VisitsHistory (codec : CursorCodec) (serde : SerdeErrors) (db : MessageDb)
    (userId convId : String) (growth : ℕ → StoredMessages) (limit : ℕ) (start : Option String) :
    Prop :=
  ∃ first back forth,
    listMessages codec serde db userId convId
      { limit := some limit, anchorMessageId := start } = .ok first ∧
    (∀ fuel, db.rows.length ≤ fuel →
      followPages (requestGrown codec serde db userId convId growth)
        MessageListResponse.hasMoreBefore (queryBefore limit) fuel 0 first = some (.ok back) ∧
      followPages (fun _ => listMessages codec serde db userId convId)
        MessageListResponse.hasMoreAfter (queryAfter limit) fuel 0 first = some (.ok forth)) ∧
    (back.reverse ++ first :: forth).flatMap MessageListResponse.items =
      history db.rows convId ∧
    (∀ page ∈ back.reverse ++ first :: forth, page.items.length ≤ limit) ∧
    (∀ page ∈ first :: forth, FlagsExact db.rows convId page) ∧
    (∀ k page, back[k]? = some page → FlagsExact (db.rows ++ growth k) convId page) ∧
    ∀ id, start = some id → ∃ item ∈ first.items, item.id = id

/-- The walk visits the history, and messages that are appended meanwhile with larger keys do not
disturb it. -/
theorem pages_visit_history (codec : CursorCodec) (h : Listable serde db userId convId)
    {growth : ℕ → StoredMessages}
    (hd : ∀ k, Table.Distinct StoredMessage.id (db.rows ++ growth k))
    (hlarger : ∀ k, ∀ m ∈ visible (growth k) convId, ∀ m' ∈ visible db.rows convId,
      m'.key < m.key)
    (hpos : 1 ≤ limit) {start : Option String}
    (hstart : ∀ id, start = some id → ∃ m ∈ visible db.rows convId, m.id = id) :
    VisitsHistory codec serde db userId convId growth limit start := by
  obtain ⟨first, pre, post, hfirst, hshows, hbefore, hafter, hlen, hflags, hanchor⟩ :=
    h.firstPage codec hpos hstart
  obtain ⟨back, hback, hpre, hbackall⟩ := h.walkBefore hpos hd hlarger hshows hbefore
  obtain ⟨forth, hforth, hpost, hforthall⟩ := h.walkAfter hpos hshows hafter
  have hsize : pre.length + post.length ≤ db.rows.length := by
    have hall : (history db.rows convId).length ≤ db.rows.length := by
      rw [history, length_ascending]
      exact List.length_filter_le _ _
    rw [hshows.split, List.length_append, List.length_append] at hall
    omega
  refine ⟨first, back, forth, hfirst, fun fuel hfuel => ⟨hback fuel (by omega),
    hforth fuel (by omega)⟩, ?_, ?_, ?_, fun k page hk => (hbackall k page hk).2, hanchor⟩
  · rw [List.flatMap_append, List.flatMap_cons, hpre, hpost, hshows.split, List.append_assoc]
  · intro page hpage
    obtain hpage | hpage := List.mem_append.mp hpage
    · obtain ⟨k, hk⟩ := List.mem_iff_getElem?.mp (List.mem_reverse.mp hpage)
      exact (hbackall k page hk).1
    · obtain rfl | hpage := List.mem_cons.mp hpage
      · exact hlen
      · exact (hforthall page hpage).1
  · intro page hpage
    obtain rfl | hpage := List.mem_cons.mp hpage
    · exact hflags
    · exact (hforthall page hpage).2

end Walk

section Execution

def strokes (cursor : MessagePageCursor) : List Char :=
  (if 0 ≤ cursor.createdAt then '+' else '-') ::
    (List.replicate cursor.createdAt.natAbs '1' ++ '.' :: cursor.id.toList)

def readStrokes : List Char → Option MessagePageCursor
  | sign :: rest =>
    let amount : ℤ := (rest.takeWhile (· = '1')).length
    let id := String.ofList ((rest.dropWhile (· = '1')).drop 1)
    some ⟨if sign = '+' then amount else -amount, id⟩
  | [] => none

theorem readStrokes_strokes (cursor : MessagePageCursor) :
    readStrokes (strokes cursor) = some cursor := by
  obtain ⟨createdAt, id⟩ := cursor
  have htake : (List.replicate createdAt.natAbs '1' ++ '.' :: id.toList).takeWhile (· = '1') =
      List.replicate createdAt.natAbs '1' := by
    rw [List.takeWhile_append_of_pos (by simp)]
    simp
  have hdrop : (List.replicate createdAt.natAbs '1' ++ '.' :: id.toList).dropWhile (· = '1') =
      '.' :: id.toList := by
    rw [List.dropWhile_append_of_pos (by simp)]
    simp
  unfold strokes readStrokes
  simp only [htake, hdrop, List.length_replicate, List.drop_succ_cons, List.drop_zero,
    String.ofList_toList]
  by_cases h : 0 ≤ createdAt
  · rw [if_pos h, if_pos rfl, Int.natAbs_of_nonneg h]
  · rw [if_neg h, if_neg (by decide), Int.ofNat_natAbs_of_nonpos (by omega), Int.neg_neg]

/-- Base64 of the JSON for two cursors, and strokes for the others. -/
def sampleCodec : CursorCodec where
  encode cursor :=
    if cursor = ⟨1, "a"⟩ then "eyJjcmVhdGVkX2F0IjoxLCJpZCI6ImEifQ"
    else if cursor = ⟨2, "b"⟩ then "eyJjcmVhdGVkX2F0IjoyLCJpZCI6ImIifQ"
    else String.ofList (strokes cursor)
  decode text :=
    if text = "eyJjcmVhdGVkX2F0IjoxLCJpZCI6ImEifQ" then some ⟨1, "a"⟩
    else if text = "eyJjcmVhdGVkX2F0IjoyLCJpZCI6ImIifQ" then some ⟨2, "b"⟩
    else readStrokes text.toList
  decode_encode := by
    intro cursor
    have first : ∀ rest : List Char, ∀ text : String, text.toList = 'e' :: rest →
        String.ofList (strokes cursor) ≠ text := by
      intro rest text htext heq
      have hhead := congrArg (fun t : String => t.toList.head?) heq
      simp only [String.toList_ofList, htext, strokes, List.head?_cons, Option.some.injEq] at hhead
      split at hhead <;> exact absurd hhead (by decide)
    by_cases ha : cursor = ⟨1, "a"⟩
    · simp [ha]
    · by_cases hb : cursor = ⟨2, "b"⟩
      · simp [hb]
      · rw [if_neg ha, if_neg hb, if_neg (first _ _ rfl), if_neg (first _ _ rfl),
          String.toList_ofList, readStrokes_strokes]

def textRow (id : String) (createdAt : ℤ) (content : String) : StoredMessage :=
  ⟨id, "c", some id, .other "text", content, some "left", some .finish, false, createdAt⟩

def sampleSerde : SerdeErrors :=
  ⟨fun text => if text = "{}" then none else some "expected value at line 1 column 1",
    fun _ => "unknown variant"⟩

def sampleDb (rows : StoredMessages) : MessageDb := ⟨fun _ => some "u", rows⟩

/-- A message without an id can be shown, but no page before it can be asked for; and a message
that is not JSON makes the page that has it fail. -/
theorem walk_stops :
    ¬VisitsHistory sampleCodec sampleSerde (sampleDb [textRow "a" 1 "{}", textRow "" 2 "{}"])
        "u" "c" (fun _ => []) 1 none ∧
      ¬VisitsHistory sampleCodec sampleSerde (sampleDb [textRow "a" 1 "?"])
        "u" "c" (fun _ => []) 1 none := by
  constructor
  · rintro ⟨first, back, forth, hfirst, hwalk, -⟩
    have hback := (hwalk 2 (by decide)).1
    have hpage : listMessages sampleCodec sampleSerde
        (sampleDb [textRow "a" 1 "{}", textRow "" 2 "{}"]) "u" "c"
        { limit := some 1, anchorMessageId := none } =
        .ok ⟨[textRow "" 2 "{}"], some "v1.+11.", some "v1.+11.", true, false⟩ := by
      decide +kernel
    obtain rfl := Except.ok.inj (hpage.symm.trans hfirst)
    have hstop : followPages (requestGrown sampleCodec sampleSerde
        (sampleDb [textRow "a" 1 "{}", textRow "" 2 "{}"]) "u" "c" fun _ => [])
        MessageListResponse.hasMoreBefore (queryBefore 1) 2 0
        ⟨[textRow "" 2 "{}"], some "v1.+11.", some "v1.+11.", true, false⟩ =
        some (.error invalidMessageCursor) := by
      decide +kernel
    cases hstop.symm.trans hback
  · rintro ⟨first, back, forth, hfirst, -⟩
    have hfails : listMessages sampleCodec sampleSerde (sampleDb [textRow "a" 1 "?"]) "u" "c"
        { limit := some 1, anchorMessageId := none } =
        .error (.internal "Invalid message content JSON: expected value at line 1 column 1") := by
      decide +kernel
    cases hfails.symm.trans hfirst

theorem pages_visit_two_messages :
    VisitsHistory sampleCodec sampleSerde (sampleDb [textRow "b" 2 "{}", textRow "a" 1 "{}"])
      "u" "c" (fun _ => [textRow "d" 3 "{}"]) 1 (some "b") := by
  have listable : Listable sampleSerde (sampleDb [textRow "b" 2 "{}", textRow "a" 1 "{}"])
      "u" "c" := by
    refine ⟨rfl, ?_, ?_⟩
    · unfold Table.Distinct
      decide
    · decide +kernel
  refine pages_visit_history sampleCodec listable ?_ ?_ le_rfl ?_
  · intro k
    unfold Table.Distinct
    exact (by decide : ([textRow "b" 2 "{}", textRow "a" 1 "{}", textRow "d" 3 "{}"].map
      StoredMessage.id).Nodup)
  · intro k
    exact (by decide +kernel : ∀ m ∈ visible [textRow "d" 3 "{}"] "c",
      ∀ m' ∈ visible [textRow "b" 2 "{}", textRow "a" 1 "{}"] "c", m'.key < m.key)
  · intro id hid
    obtain rfl := Option.some.inj hid
    exact (by decide +kernel : ∃ m ∈ visible [textRow "b" 2 "{}", textRow "a" 1 "{}"] "c",
      m.id = "b")

end Execution

end AionCore.Conversation
