import AionCore.Lib.FileAdditions
import Mathlib.Data.List.DropRight

/-!
# What a path names

A path names an entry of a directory: the object at its end, or the link there that leads to the
object.
-/

namespace FileTree

variable {γ : Type*} {t : FileTree γ} {cur d p q e : Place} {x : String}
  {pieces rest : List String}

def trimmed (pieces : List String) : List String :=
  pieces.rdropWhile fun x => x = "" ∨ x = "."

variable (t) in
def named (pieces : List String) : Except Errno Place :=
  if trimmed pieces = [] then .ok [] else t.entryPlace (trimmed pieces)

theorem advance_skips (h : ∀ x ∈ rest, x = "" ∨ x = ".") :
    t.advance cur rest = .done (.arrived cur) := by
  induction rest with
  | nil => rfl
  | cons x rest ih =>
    rw [advance_skip (h x List.mem_cons_self)]
    exact ih fun y hy => h y (List.mem_cons_of_mem x hy)

theorem trimmed_append (pieces : List String) :
    ∃ rest, pieces = trimmed pieces ++ rest ∧ ∀ x ∈ rest, x = "" ∨ x = "." := by
  refine ⟨pieces.rtakeWhile fun x => x = "" ∨ x = ".", ?_, fun x hx => ?_⟩
  · exact List.rdropWhile_append_rtakeWhile.symm
  · simpa using List.mem_rtakeWhile_imp hx

/-- A path leads to the entry that it names, or a link stands there. -/
theorem named_cases (hnamed : t.named pieces = .ok e) (h : t.lookup pieces = .arrived p) :
    e = p ∨ ∃ target, t.Stands e ∧ t.node e = some (.link target) := by
  obtain ⟨rest, hpieces, hrest⟩ := trimmed_append pieces
  rw [named] at hnamed
  split at hnamed
  · rename_i hnil
    rw [hnil, List.nil_append] at hpieces
    rw [hpieces, lookup, follow, advance_skips hrest] at h
    exact .inl ((Except.ok.inj hnamed).symm.trans (Goal.arrived.inj h))
  · rename_i hne
    obtain ⟨above, x, hlast⟩ := (List.eq_nil_or_concat (trimmed pieces)).resolve_left hne
    rw [List.concat_eq_append] at hlast
    rw [hlast, entryPlace, List.getLast?_concat, List.dropLast_concat] at hnamed
    dsimp only at hnamed
    split at hnamed
    · rename_i dir hdir
      split at hnamed
      · cases hnamed
      · split at hnamed
        · cases hnamed
        · rename_i hisdir hx
          rw [not_not] at hisdir hx
          obtain rfl := Except.ok.inj hnamed
          have hreal := realDir_of_lookup hdir hisdir
          rw [hpieces, hlast, List.append_assoc] at h
          obtain ⟨m, hm⟩ := follow_extend ([x] ++ rest) (by simp) .nil hdir hreal
          rw [lookup, hm, List.singleton_append] at h
          rw [follow, advance_plain hx] at h
          cases hn : t.node (dir ++ [x]) with
          | none =>
            rw [hn] at h
            dsimp only at h
            split at h <;> cases h
          | some node =>
            rw [hn] at h
            cases node with
            | dir =>
              rw [advance_skips hrest] at h
              exact .inl (Goal.arrived.inj h)
            | file content =>
              dsimp only at h
              split at h
              · exact .inl (Goal.arrived.inj h)
              · cases h
            | link target =>
              refine .inr ⟨target, ⟨by simp, ?_, by simp [hn]⟩, rfl⟩
              rwa [List.dropLast_concat]
    · cases hnamed
    · cases hnamed

/-- What a path leads to stands there, unless it is the root. -/
theorem stands_of_lookup (h : t.lookup pieces = .arrived p) (hp : p ≠ []) :
    t.Stands p ∧ ∀ target, t.node p ≠ some (.link target) := by
  have hs : Goal.Sound t (.arrived p) := h ▸ lookup_sound
  rcases hs with hreal | ⟨d, x, content, rfl, hreal, -, hn⟩
  · obtain ⟨d, x, rfl⟩ := (List.eq_nil_or_concat p).resolve_left hp
    rw [List.concat_eq_append] at hreal ⊢
    obtain ⟨hd, -, hn⟩ := realDir_snoc.mp hreal
    refine ⟨⟨by simp, ?_, by simp [hn]⟩, by simp [hn]⟩
    rwa [List.dropLast_concat]
  · refine ⟨⟨hp, ?_, by simp [hn]⟩, by simp [hn]⟩
    rwa [List.dropLast_concat]

theorem Stands.not_above (h : t.Stands q) (hp : p ≠ []) (hn : t.node p ≠ some .dir)
    (hne : p ≠ q) : ¬p <+: q := by
  intro hpq
  obtain ⟨d, x, rfl⟩ := (List.eq_nil_or_concat q).resolve_left h.1
  rw [List.concat_eq_append] at h hne hpq
  have hpd := (List.prefix_concat_iff.mp hpq).resolve_left hne
  refine h.2.1.not_above hp hn ?_
  rwa [List.dropLast_concat]

end FileTree
