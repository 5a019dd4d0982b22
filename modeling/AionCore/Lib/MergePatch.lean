import Mathlib.Data.Finset.Basic
import Mathlib.Data.Finset.Max
import Mathlib.Data.String.Basic

/-!
# JSON merge patches

JSON values in which the order of the members of an object does not count, reading and setting a
member, and the merge patch of RFC 7396: a null deletes a member and an object is merged into what
is there. A patch takes the place of a value as it is exactly if it fits it.
-/

/-- A JSON value; a number is kept as its text. -/
inductive JsonValue where
  | null
  | bool (b : Bool)
  | number (text : String)
  | string (s : String)
  | array (length : ℕ) (item : Fin length → JsonValue)
  | object (keys : Finset String) (value : { k // k ∈ keys } → JsonValue)

namespace JsonValue

def get : JsonValue → String → Option JsonValue
  | .object keys value, k => if h : k ∈ keys then some (value ⟨k, h⟩) else none
  | _, _ => none

def keys : JsonValue → Finset String
  | .object keys _ => keys
  | _ => ∅

def isNull : JsonValue → Bool
  | .null => true
  | _ => false

def isObject : JsonValue → Bool
  | .object _ _ => true
  | _ => false

/-- The object with the members that there are under the keys. -/
def build (keys : Finset String) (member : String → Option JsonValue) : JsonValue :=
  .object (keys.filter fun k => (member k).isSome = true) fun k => (member k).getD .null

/-- The object of a list of fields; a field without a value is left out. -/
def record (fields : List (String × Option JsonValue)) : JsonValue :=
  build (fields.map Prod.fst).toFinset fun k => (fields.lookup k).join

def ofList (items : List JsonValue) : JsonValue := .array items.length items.get

variable {j t t' p p' v : JsonValue} {k f : String} {path : List String}

theorem get_isSome : (j.get k).isSome = true ↔ k ∈ j.keys := by
  cases j with
  | object keys value =>
    by_cases h : k ∈ keys
    · simp [get, JsonValue.keys, h]
    · simp [get, JsonValue.keys, h]
  | _ => simp [get, JsonValue.keys]

theorem get_of_notMem (h : k ∉ j.keys) : j.get k = none := by
  rw [← get_isSome] at h
  simpa using h

theorem isObject_of_get (h : j.get k = some v) : j.isObject = true := by
  cases j with
  | object keys value => rfl
  | _ => cases h

theorem not_isNull_of_isObject (h : j.isObject = true) : j.isNull = false := by
  cases j with
  | object keys value => rfl
  | _ => cases h

/-- Objects with the same members are the same. -/
theorem ext_get (h : t.isObject = true) (h' : t'.isObject = true) (hget : ∀ k, t.get k = t'.get k) :
    t = t' := by
  cases t with
  | object keys value =>
    cases t' with
    | object keys' value' =>
      have hkeys : keys = keys' := by
        ext k
        have hk := congrArg Option.isSome (hget k)
        rw [Bool.eq_iff_iff, get_isSome, get_isSome] at hk
        exact hk
      subst hkeys
      congr 1
      funext ⟨k, hk⟩
      have hk' := hget k
      rw [get, get, dif_pos hk, dif_pos hk] at hk'
      exact Option.some.inj hk'
    | _ => cases h'
  | _ => cases h

theorem get_build (ks : Finset String) (member : String → Option JsonValue) (k : String) :
    (build ks member).get k = if k ∈ ks then member k else none := by
  rw [build, get]
  by_cases hk : k ∈ ks
  · rw [if_pos hk]
    cases hmember : member k with
    | none => rw [dif_neg (by simp [hmember])]
    | some v =>
      rw [dif_pos (by simp [hk, hmember])]
      simp [hmember]
  · rw [if_neg hk, dif_neg (by simp [hk])]

@[simp] theorem isObject_record (fields : List (String × Option JsonValue)) :
    (record fields).isObject = true := rfl

theorem lookup_eq_none {fields : List (String × Option JsonValue)} (h : k ∉ fields.map Prod.fst) :
    fields.lookup k = none := by
  rw [List.lookup_eq_none_iff]
  exact fun field hfield => bne_iff_ne.mpr fun heq =>
    h (List.mem_map.mpr ⟨field, hfield, heq.symm⟩)

theorem get_record (fields : List (String × Option JsonValue)) (k : String) :
    (record fields).get k = (fields.lookup k).join := by
  rw [record, get_build]
  split
  · rfl
  · next hk =>
    rw [List.mem_toFinset] at hk
    rw [lookup_eq_none hk]
    rfl

theorem mem_of_mem_keys_record {fields : List (String × Option JsonValue)}
    (h : k ∈ (record fields).keys) : k ∈ fields.map Prod.fst := by
  rw [← get_isSome, get_record] at h
  by_contra hk
  rw [lookup_eq_none hk] at h
  cases h

/-- `json_set` of one member; what is no object stays as it is. -/
def set (j : JsonValue) (k : String) (v : JsonValue) : JsonValue :=
  if j.isObject then build (insert k j.keys) fun k' => if k' = k then some v else j.get k' else j

/-- What is at a path of keys, as `json_extract` finds it. -/
def at? : JsonValue → List String → Option JsonValue
  | j, [] => some j
  | j, k :: path => (j.get k).bind fun child => child.at? path

/-- `json_set` at a path of keys; missing objects are made. -/
def setAt : JsonValue → List String → JsonValue → JsonValue
  | _, [], v => v
  | j, k :: path, v => j.set k (((j.get k).getD (.build ∅ fun _ => none)).setAt path v)

theorem isObject_set (h : j.isObject = true) : (j.set k v).isObject = true := by
  rw [set, if_pos h]
  rfl

theorem get_set (h : j.isObject = true) (k' : String) :
    (j.set k v).get k' = if k' = k then some v else j.get k' := by
  rw [set, if_pos h, get_build]
  by_cases hk : k' = k
  · rw [if_pos (by simp [hk])]
  · simp only [if_neg hk]
    by_cases hmem : k' ∈ j.keys
    · rw [if_pos (by simp [hmem])]
    · rw [if_neg (by simp [hk, hmem]), get_of_notMem hmem]

theorem at?_snoc (j : JsonValue) (path : List String) (k : String) :
    j.at? (path ++ [k]) = (j.at? path).bind fun child => child.get k := by
  induction path generalizing j with
  | nil =>
    show (j.get k).bind (fun child => some child) = j.get k
    cases j.get k with
    | none => rfl
    | some child => rfl
  | cons key path ih =>
    rw [List.cons_append, at?, at?]
    cases j.get key with
    | none => rfl
    | some child => exact ih child

/-- To set a member of the object at a path is to set it in that object. -/
theorem at?_setAt (h : j.at? path = some t) :
    (j.setAt (path ++ [k]) v).at? path = some (t.set k v) := by
  induction path generalizing j with
  | nil =>
    cases h
    rfl
  | cons key path ih =>
    obtain ⟨child, hchild, hat⟩ := Option.bind_eq_some_iff.mp h
    rw [List.cons_append, setAt, hchild, Option.getD_some, at?, get_set (isObject_of_get hchild),
      if_pos rfl]
    exact ih hat

def mergePatch : JsonValue → JsonValue → JsonValue
  | target, .object keys value =>
    build (target.keys ∪ keys) fun k =>
      if h : k ∈ keys then
        if (value ⟨k, h⟩).isNull then none
        else some (mergePatch ((target.get k).getD .null) (value ⟨k, h⟩))
      else target.get k
  | _, patch => patch

def mergeMember (old new : Option JsonValue) : Option JsonValue :=
  match new with
  | none => old
  | some v => if v.isNull then none else some (mergePatch (old.getD .null) v)

def Fits : JsonValue → JsonValue → Prop
  | target, .object keys value =>
    (∀ k, (target.get k).isSome = true → k ∈ keys) ∧
      ∀ k : { k // k ∈ keys }, (value k).isNull = false ∧
        Fits ((target.get k).getD .null) (value k)
  | _, _ => True

theorem get_mergePatch (h : p.isObject = true) (k : String) :
    (t.mergePatch p).get k = mergeMember (t.get k) (p.get k) := by
  cases p with
  | object keys value =>
    rw [mergePatch, get_build]
    by_cases hk : k ∈ keys
    · rw [if_pos (by simp [hk]), dif_pos hk, get, dif_pos hk]
      rfl
    · rw [dif_neg hk, show (object keys value).get k = none from dif_neg hk]
      by_cases hmem : k ∈ t.keys
      · rw [if_pos (by simp [hmem])]
        rfl
      · rw [if_neg (by simp [hmem, hk])]
        exact (get_of_notMem hmem).symm
  | _ => cases h

theorem isObject_mergePatch (h : p.isObject = true) : (t.mergePatch p).isObject = true := by
  cases p with
  | object keys value => rfl
  | _ => cases h

/-- The value of a patch comes into its place unchanged exactly if it fits what is there. -/
theorem mergePatch_eq_iff : t.mergePatch p = p ↔ Fits t p := by
  induction p generalizing t with
  | object keys value ih =>
    have hobject : (object keys value).isObject = true := rfl
    have hmember : ∀ k, (t.mergePatch (object keys value)).get k =
        mergeMember (t.get k) ((object keys value).get k) := get_mergePatch hobject
    constructor
    · intro heq
      rw [heq] at hmember
      refine ⟨fun k hk => ?_, fun ⟨k, hk⟩ => ?_⟩
      · by_contra hnot
        have hnone : (object keys value).get k = none := dif_neg hnot
        have hsame := hmember k
        rw [hnone] at hsame
        rw [← show none = t.get k from hsame] at hk
        cases hk
      · have hsome : (object keys value).get k = some (value ⟨k, hk⟩) := dif_pos hk
        have hsame := hmember k
        rw [hsome, mergeMember] at hsame
        cases hnull : (value ⟨k, hk⟩).isNull with
        | true =>
          rw [hnull] at hsame
          cases hsame
        | false =>
          rw [hnull] at hsame
          exact ⟨rfl, (ih ⟨k, hk⟩).mp (Option.some.inj hsame).symm⟩
    · rintro ⟨hkeys, hvalues⟩
      refine ext_get (isObject_mergePatch hobject) hobject fun k => ?_
      rw [hmember]
      by_cases hk : k ∈ keys
      · obtain ⟨hnull, hfits⟩ := hvalues ⟨k, hk⟩
        rw [show (object keys value).get k = some (value ⟨k, hk⟩) from dif_pos hk, mergeMember]
        rw [hnull, if_neg Bool.false_ne_true, (ih ⟨k, hk⟩).mpr hfits]
      · rw [show (object keys value).get k = none from dif_neg hk, mergeMember]
        cases hget : t.get k with
        | none => rfl
        | some v => exact absurd (hkeys k (by rw [hget]; rfl)) hk
  | _ => exact iff_of_true rfl trivial

/-- Where a patch has an object at a path, it is merged into what is there. -/
theorem at?_mergePatch (h : j.at? path = some t) (hp : p.at? path = some p')
    (hobject : p'.isObject = true) : (j.mergePatch p).at? path = some (t.mergePatch p') := by
  induction path generalizing j p with
  | nil =>
    cases h
    cases hp
    rfl
  | cons key path ih =>
    obtain ⟨child, hchild, hat⟩ := Option.bind_eq_some_iff.mp h
    obtain ⟨patch, hpatch, hat'⟩ := Option.bind_eq_some_iff.mp hp
    have hnull : patch.isNull = false := by
      refine not_isNull_of_isObject ?_
      cases path with
      | nil =>
        cases hat'
        exact hobject
      | cons key' path =>
        obtain ⟨child', hget, -⟩ := Option.bind_eq_some_iff.mp hat'
        exact isObject_of_get hget
    rw [at?, get_mergePatch (isObject_of_get hpatch), hchild, hpatch, mergeMember]
    rw [hnull, if_neg Bool.false_ne_true, Option.bind_some, Option.getD_some]
    exact ih hat hat'

end JsonValue
