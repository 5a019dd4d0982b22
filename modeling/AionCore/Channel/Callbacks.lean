import AionCore.Lib.Dict
import AionCore.Lib.Separators
import Mathlib.Data.List.Induction

/-!
# Channels: the callbacks of buttons

What a button sends back when it is pressed: `format_callback_data` and `parse_callback_data` of
the Telegram plugin, `format_lark_callback` and `parse_lark_callback` of the Lark plugin.
-/

namespace AionCore.Channel

open Separators

inductive ActionCategory where
  | platform
  | system
  | chat

structure ActionButton where
  action : String
  params : Option (Dict String String)

namespace Callback

abbrev ParamOrder := IterOrder (Sigma fun _ : String => String)

/-- `action_category_prefix`. -/
def categoryName (action : List Char) : List Char :=
  if action = "system.confirm".toList then "chat".toList
  else
    let first := action.takeWhile (· ≠ '.')
    if first = "pairing".toList then "platform".toList
    else if first = "chat".toList ∨ first = "action".toList then "chat".toList
    else "system".toList

def pairsOf (order : ParamOrder) (params : Dict String String) : List (List Char × List Char) :=
  (order.arrange params.entries).map fun e => (e.1.toList, e.2.toList)

def format (order : ParamOrder) (action : String) (params : Option (Dict String String)) :
    String :=
  let category := categoryName action.toList
  String.ofList <|
    match params with
    | none => category ++ ':' :: action.toList
    | some params =>
      if params.entries = [] then category ++ ':' :: action.toList
      else category ++ ':' :: (action.toList ++ ':' :: writePairs ',' '=' (pairsOf order params))

structure Parsed (κ : Type) where
  category : κ
  action : String
  params : Option (Dict String String)

def collect (pairs : List (List Char × List Char)) : Dict String String :=
  pairs.foldl (fun map pair => map.insert (String.ofList pair.1) (String.ofList pair.2)) ∅

def parseParams (text : List Char) : Option (Dict String String) :=
  if text = [] then none
  else
    let map := collect (readPairs ',' '=' text)
    if map.entries = [] then none else some map

def parse {κ : Type} (category : List Char → Option κ) (data : String) : Option (Parsed κ) :=
  match splitn ':' 3 data.toList with
  | name :: action :: rest =>
    (category name).map fun category =>
      ⟨category, String.ofList action, rest.head?.bind parseParams⟩
  | _ => none

end Callback

open Callback

def telegramCategory (name : List Char) : Option ActionCategory :=
  if name = "platform".toList then some .platform
  else if name = "system".toList then some .system
  else if name = "chat".toList then some .chat
  else none

def formatCallbackData (order : ParamOrder) (btn : ActionButton) : String :=
  format order btn.action btn.params

def parseCallbackData (data : String) : Option (Parsed ActionCategory) :=
  parse telegramCategory data

def larkCategory (name : List Char) : Option String :=
  if name = "platform".toList ∨ name = "system".toList ∨ name = "chat".toList then
    some (String.ofList name)
  else none

def formatLarkCallback (order : ParamOrder) (action : String)
    (params : Option (Dict String String)) : String :=
  format order action params

def parseLarkCallback (data : String) : Option (Parsed String) := parse larkCategory data

namespace Callback

def valueOf (params : Option (Dict String String)) (k : String) : Option String :=
  params.bind (·.lookup k)

/-- No key has one of the inner separators in it, and no value a comma. -/
def Separable (params : Option (Dict String String)) : Prop :=
  ∀ k v, valueOf params k = some v → Apart ',' '=' (k.toList, v.toList)

variable {params : Option (Dict String String)} {pairs : List (List Char × List Char)}
  {map : Dict String String} {k v : String} {order : ParamOrder}

/-- What pairs with different keys are collected to. -/
theorem lookup_foldl_insert (hkeys : (pairs.map (·.1)).Nodup) :
    (pairs.foldl (fun map pair => map.insert (String.ofList pair.1) (String.ofList pair.2))
        map).lookup k = some v ↔
      (k.toList, v.toList) ∈ pairs ∨ k.toList ∉ pairs.map (·.1) ∧ map.lookup k = some v := by
  induction pairs generalizing map with
  | nil => simp
  | cons pair pairs ih =>
    obtain ⟨hfirst, hrest⟩ := List.nodup_cons.mp hkeys
    rw [List.foldl_cons, ih hrest, Dict.lookup_insert', List.mem_cons, List.map_cons,
      List.mem_cons, not_or]
    by_cases hk : k = String.ofList pair.1
    · have hkey : k.toList = pair.1 := by rw [hk, String.toList_ofList]
      have hvalue : String.ofList pair.2 = v ↔ (k.toList, v.toList) = pair := by
        rw [hkey, ← String.toList_inj, String.toList_ofList]
        exact ⟨fun h => Prod.ext rfl h.symm, fun h => congrArg Prod.snd h.symm⟩
      have hnot : (k.toList, v.toList) ∉ pairs := fun hmem =>
        hfirst (by simpa [hkey] using List.mem_map_of_mem (f := Prod.fst) hmem)
      rw [if_pos hk, Option.some.injEq, hvalue]
      constructor
      · rintro (hmem | ⟨-, heq⟩)
        · exact absurd hmem hnot
        · exact .inl (.inl heq)
      · rintro ((heq | hmem) | ⟨⟨hne, -⟩, -⟩)
        · exact .inr ⟨hkey ▸ hfirst, heq⟩
        · exact absurd hmem hnot
        · exact absurd hkey hne
    · have hkey : k.toList ≠ pair.1 := fun h => hk (by rw [← h, String.ofList_toList])
      have hne : (k.toList, v.toList) ≠ pair := fun h => hkey (congrArg Prod.fst h)
      simp [hk, hkey, hne]

theorem lookup_collect (hkeys : (pairs.map (·.1)).Nodup) :
    (collect pairs).lookup k = some v ↔ (k.toList, v.toList) ∈ pairs := by
  rw [collect, lookup_foldl_insert hkeys, AList.lookup_empty]
  simp

/-- Whatever is collected was read. -/
theorem mem_of_lookup_collect (h : (collect pairs).lookup k = some v) :
    (k.toList, v.toList) ∈ pairs := by
  induction pairs using List.reverseRecOn with
  | nil => cases h
  | append_singleton pairs pair ih =>
    rw [collect, List.foldl_concat, Dict.lookup_insert'] at h
    rw [List.mem_append, List.mem_singleton]
    split at h
    · rename_i hk
      right
      rw [hk, ← Option.some.inj h, String.toList_ofList, String.toList_ofList]
    · exact .inl (ih h)

theorem mem_pairsOf : (k.toList, v.toList) ∈ pairsOf order map ↔ map.lookup k = some v := by
  have hlookup : map.lookup k = some v ↔ ⟨k, v⟩ ∈ map.entries := AList.mem_lookup_iff
  rw [hlookup, pairsOf, List.mem_map]
  constructor
  · rintro ⟨⟨k', v'⟩, hmem, heq⟩
    obtain ⟨hk, hv⟩ := Prod.mk.inj heq
    obtain rfl := String.toList_inj.mp hk
    obtain rfl := String.toList_inj.mp hv
    exact order.mem_arrange.mp hmem
  · exact fun hmem => ⟨⟨k, v⟩, order.mem_arrange.mpr hmem, rfl⟩

theorem nodup_pairsOf : ((pairsOf order map).map (·.1)).Nodup := by
  have hkeys : ((order.arrange map.entries).map Sigma.fst).Nodup :=
    ((order.perm map.entries).map Sigma.fst).nodup_iff.mpr map.nodupKeys
  have heq : (pairsOf order map).map (·.1) =
      ((order.arrange map.entries).map Sigma.fst).map String.toList := by
    rw [pairsOf, List.map_map, List.map_map]
    rfl
  rw [heq]
  exact hkeys.map fun _ _ => String.toList_inj.mp

theorem lookup_of_entries (h : map.entries = []) : map.lookup k = none := by
  rw [AList.lookup_eq_none, AList.mem_keys, AList.keys, h]
  exact List.not_mem_nil

theorem valueOf_parseParams (text : List Char) :
    valueOf (parseParams text) k = (collect (readPairs ',' '=' text)).lookup k := by
  rw [parseParams]
  split
  · rename_i htext
    rw [htext]
    rfl
  · dsimp only
    split
    · rename_i hentries
      exact (lookup_of_entries hentries).symm
    · rfl

def shown (order : ParamOrder) (params : Option (Dict String String)) :
    Option (Dict String String) :=
  params.bind fun params =>
    if params.entries = [] then none else parseParams (writePairs ',' '=' (pairsOf order params))

/-- In whatever order they are written, parameters are read back if and only if the separators leave
them whole. -/
theorem valueOf_shown_iff (order : ParamOrder) :
    (∀ k, valueOf (shown order params) k = valueOf params k) ↔ Separable params := by
  cases params with
  | none => exact iff_of_true (fun _ => rfl) fun _ _ h => by cases h
  | some map =>
    by_cases hentries : map.entries = []
    · have hnone : ∀ k, valueOf (some map) k = none := fun k => lookup_of_entries hentries
      refine iff_of_true (fun k => ?_) fun k v h => by cases (hnone k).symm.trans h
      rw [hnone, shown, Option.bind_some, if_pos hentries]
      rfl
    · have hshown : ∀ k, valueOf (shown order (some map)) k =
          (collect (readPairs ',' '=' (writePairs ',' '=' (pairsOf order map)))).lookup k := by
        intro k
        rw [shown, Option.bind_some, if_neg hentries, valueOf_parseParams]
      constructor
      · intro h k v hvalue
        rw [← h k, hshown k] at hvalue
        exact apart_of_mem_readPairs (mem_of_lookup_collect hvalue)
      · intro h k
        have hapart : ∀ pair ∈ pairsOf order map, Apart ',' '=' pair := by
          intro pair hpair
          obtain ⟨e, he, rfl⟩ := List.mem_map.mp hpair
          exact h e.1 e.2 (AList.mem_lookup_iff.mpr (order.mem_arrange.mp he))
        have hpairs : pairsOf order map ≠ [] := by
          intro hnil
          have hlength := (order.perm map.entries).length_eq
          rw [List.map_eq_nil_iff.mp hnil] at hlength
          exact hentries (List.eq_nil_of_length_eq_zero hlength.symm)
        rw [hshown k, readPairs_writePairs (by decide) hapart hpairs]
        apply Option.ext
        intro v
        rw [lookup_collect nodup_pairsOf, mem_pairsOf]
        rfl

theorem colon_notMem_categoryName (action : List Char) : ':' ∉ categoryName action := by
  unfold categoryName
  dsimp only
  split_ifs <;> decide

variable {action : String}

/-- What the callback of a button is parsed to. -/
theorem parse_format {κ : Type} (category : List Char → Option κ) (haction : ':' ∉ action.toList)
    (order : ParamOrder) :
    parse category (format order action params) =
      (category (categoryName action.toList)).map fun category =>
        ⟨category, action, shown order params⟩ := by
  have hname := colon_notMem_categoryName action.toList
  have hplain : splitn ':' 3 (categoryName action.toList ++ ':' :: action.toList) =
      [categoryName action.toList, action.toList] := by
    rw [splitn_append hname, splitn_of_notMem haction]
  cases params with
  | none =>
    rw [parse, format, String.toList_ofList, hplain]
    simp [shown, String.ofList_toList]
  | some map =>
    rw [parse, format, String.toList_ofList]
    by_cases hentries : map.entries = []
    · rw [if_pos hentries, hplain]
      simp [shown, hentries, String.ofList_toList]
    · rw [if_neg hentries, splitn_append hname, splitn_append haction]
      simp [shown, hentries, splitn, String.ofList_toList]

def ReadsBack {κ : Type} (category : List Char → Option κ) (action : String)
    (params : Option (Dict String String)) (parsed : Option (Parsed κ)) : Prop :=
  ∃ p, parsed = some p ∧ category (categoryName action.toList) = some p.category ∧
    p.action = action ∧ ∀ k, valueOf p.params k = valueOf params k

theorem readsBack_iff {κ : Type} {category : List Char → Option κ} (haction : ':' ∉ action.toList)
    (hcategory : (category (categoryName action.toList)).isSome) (order : ParamOrder) :
    ReadsBack category action params (parse category (format order action params)) ↔
      Separable params := by
  obtain ⟨name, hname⟩ := Option.isSome_iff_exists.mp hcategory
  rw [ReadsBack, parse_format category haction, hname, Option.map_some,
    ← valueOf_shown_iff order]
  constructor
  · rintro ⟨p, hp, -, -, hvalues⟩
    rwa [← Option.some.inj hp] at hvalues
  · exact fun hvalues => ⟨_, rfl, rfl, rfl, hvalues⟩

theorem isSome_telegramCategory (action : List Char) :
    (telegramCategory (categoryName action)).isSome := by
  unfold categoryName
  dsimp only
  split_ifs <;> decide

theorem isSome_larkCategory (action : List Char) : (larkCategory (categoryName action)).isSome := by
  unfold categoryName
  dsimp only
  split_ifs <;> decide

end Callback

namespace ActionButton

/-- Both plugins read the button back, whatever the order of its parameters. -/
def RoundTrips (btn : ActionButton) : Prop :=
  ∀ order, ReadsBack telegramCategory btn.action btn.params
      (parseCallbackData (formatCallbackData order btn)) ∧
    ReadsBack larkCategory btn.action btn.params
      (parseLarkCallback (formatLarkCallback order btn.action btn.params))

/-- Two buttons have one meaning. -/
def SameMeaning (btn btn' : ActionButton) : Prop :=
  btn.action = btn'.action ∧ ∀ k, valueOf btn.params k = valueOf btn'.params k

end ActionButton

/-- A button is read back if and only if the separators leave its parameters whole, and among such
buttons a callback has one meaning. -/
theorem callback_reads_back_iff (btn : ActionButton) (haction : ':' ∉ btn.action.toList) :
    (btn.RoundTrips ↔ Separable btn.params) ∧
    (Separable btn.params → ∀ btn' : ActionButton, ':' ∉ btn'.action.toList →
      Separable btn'.params → ∀ order order',
        formatCallbackData order btn = formatCallbackData order' btn' ∨
          formatLarkCallback order btn.action btn.params =
            formatLarkCallback order' btn'.action btn'.params →
        btn.SameMeaning btn') := by
  have htelegram := isSome_telegramCategory btn.action.toList
  constructor
  · constructor
    · exact fun h => (readsBack_iff haction htelegram .stored).mp (h .stored).1
    · exact fun h order => ⟨(readsBack_iff haction htelegram order).mpr h,
        (readsBack_iff haction (isSome_larkCategory btn.action.toList) order).mpr h⟩
  · intro h btn' haction' h' order order' hsame
    have hsame : format order btn.action btn.params = format order' btn'.action btn'.params :=
      or_self_iff.mp hsame
    obtain ⟨p, hp, -, hpaction, hvalues⟩ := (readsBack_iff haction htelegram order).mpr h
    obtain ⟨p', hp', -, hpaction', hvalues'⟩ :=
      (readsBack_iff haction' (isSome_telegramCategory btn'.action.toList) order').mpr h'
    obtain rfl : p = p' := Option.some.inj (hp.symm.trans (hsame ▸ hp'))
    exact ⟨hpaction.symm.trans hpaction', fun k => (hvalues k).symm.trans (hvalues' k)⟩

def confirmButton (callId : String) : ActionButton where
  action := "system.confirm"
  params := some (AList.insert "callId" callId ∅)

theorem separable_confirmButton {callId : String} (h : ',' ∉ callId.toList) :
    Separable (confirmButton callId).params := by
  intro k v hvalue
  have hvalue : (AList.insert "callId" callId ∅ : Dict String String).lookup k = some v := hvalue
  rw [Dict.lookup_insert'] at hvalue
  split at hvalue
  · rename_i hk
    rw [hk, ← Option.some.inj hvalue]
    have hkey : ',' ∉ "callId".toList ∧ '=' ∉ "callId".toList := by decide
    exact ⟨hkey.1, hkey.2, h⟩
  · cases hvalue

theorem callback_reads_back_iff_sample : (confirmButton "call:1=a").RoundTrips :=
  (callback_reads_back_iff (confirmButton "call:1=a") (by decide)).1.mpr
    (separable_confirmButton (by decide))

/-- The part of a value after a comma is lost. -/
theorem comma_cuts_value : ¬∀ btn : ActionButton, ':' ∉ btn.action.toList → btn.RoundTrips := by
  intro h
  have haction : ':' ∉ (confirmButton "a,b").action.toList := by decide
  have hseparable : Separable (confirmButton "a,b").params :=
    (readsBack_iff haction (isSome_telegramCategory _) .stored).mp (h _ haction .stored).1
  exact absurd (hseparable "callId" "a,b" rfl).2.2 (by decide)

/-- Two buttons with one callback. -/
example :
    formatCallbackData .stored ⟨"chat.send", some (AList.insert "a" "1" (AList.insert "b" "2" ∅))⟩ =
      formatCallbackData .stored ⟨"chat.send", some (AList.insert "a" "1,b=2" ∅)⟩ := by
  decide +kernel

end AionCore.Channel
