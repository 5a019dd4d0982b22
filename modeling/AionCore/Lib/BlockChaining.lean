import Mathlib.Data.List.Basic
import Mathlib.Logic.Equiv.Defs

/-!
# Chained blocks and padding

A text is cut into blocks of one length. In cipher block chaining each block is combined with the
encryption of the one before it and then encrypted; whatever bijection encrypts a block, decryption
takes that back. A text is padded with as many copies of a number as that number says.
-/

namespace BlockChaining

section Blocks

variable {α : Type*} {n : ℕ}

abbrev Block (α : Type*) (n : ℕ) := {l : List α // l.length = n}

def asBlock (n : ℕ) (l : List α) : Option (Block α n) :=
  if h : l.length = n then some ⟨l, h⟩ else none

/-- The first `k` pieces of length `n`. -/
def chunks (n : ℕ) : ℕ → List α → List (List α)
  | 0, _ => []
  | k + 1, l => l.take n :: chunks n k (l.drop n)

/-- All pieces of length `n`; what is left over is dropped. -/
def chunksExact (n : ℕ) (l : List α) : List (List α) := chunks n (l.length / n) l

def toBlocks (n : ℕ) (l : List α) : List (Block α n) := (chunksExact n l).filterMap (asBlock n)

def ofBlocks (blocks : List (Block α n)) : List α := blocks.flatMap (·.1)

theorem asBlock_val (b : Block α n) : asBlock n b.1 = some b := dif_pos b.2

@[simp] theorem length_ofBlocks (blocks : List (Block α n)) :
    (ofBlocks blocks).length = blocks.length * n := by
  induction blocks with
  | nil => simp [ofBlocks]
  | cons b blocks ih =>
    rw [ofBlocks, List.flatMap_cons, List.length_append, ← ofBlocks, ih, b.2, List.length_cons,
      Nat.succ_mul, Nat.add_comm]

theorem chunks_ofBlocks (blocks : List (Block α n)) :
    chunks n blocks.length (ofBlocks blocks) = blocks.map (·.1) := by
  induction blocks with
  | nil => rfl
  | cons b blocks ih =>
    rw [ofBlocks, List.flatMap_cons, ← ofBlocks, List.length_cons, chunks, List.take_left' b.2,
      List.drop_left' b.2, ih]
    rfl

theorem chunksExact_ofBlocks (hn : 0 < n) (blocks : List (Block α n)) :
    chunksExact n (ofBlocks blocks) = blocks.map (·.1) := by
  rw [chunksExact, length_ofBlocks, Nat.mul_div_cancel _ hn, chunks_ofBlocks]

theorem toBlocks_ofBlocks (hn : 0 < n) (blocks : List (Block α n)) :
    toBlocks n (ofBlocks blocks) = blocks := by
  rw [toBlocks, chunksExact_ofBlocks hn, List.filterMap_map]
  exact (List.filterMap_congr fun b _ => asBlock_val b).trans List.filterMap_some

theorem exists_blocks {l : List α} {k : ℕ} (h : l.length = k * n) :
    ∃ blocks : List (Block α n), ofBlocks blocks = l ∧ blocks.length = k := by
  induction k generalizing l with
  | zero =>
    rw [Nat.zero_mul] at h
    exact ⟨[], (List.eq_nil_of_length_eq_zero h).symm, rfl⟩
  | succ k ih =>
    rw [Nat.succ_mul] at h
    have htake : (l.take n).length = n := by
      rw [List.length_take]
      omega
    obtain ⟨blocks, hblocks, hlength⟩ := ih (l := l.drop n) (by rw [List.length_drop]; omega)
    refine ⟨⟨l.take n, htake⟩ :: blocks, ?_, by rw [List.length_cons, hlength]⟩
    rw [ofBlocks, List.flatMap_cons, ← ofBlocks, hblocks, List.take_append_drop]

theorem ofBlocks_toBlocks (hn : 0 < n) {l : List α} (h : n ∣ l.length) :
    ofBlocks (toBlocks n l) = l := by
  obtain ⟨k, hk⟩ := h
  obtain ⟨blocks, rfl, -⟩ := exists_blocks (hk.trans (Nat.mul_comm n k))
  rw [toBlocks_ofBlocks hn]

end Blocks

section Chaining

variable {β : Type*} {combine : β → β → β} {e : β ≃ β}

def encryptBlocks (combine : β → β → β) (e : β ≃ β) : β → List β → List β
  | _, [] => []
  | previous, p :: ps =>
    e (combine p previous) :: encryptBlocks combine e (e (combine p previous)) ps

def decryptBlocks (combine : β → β → β) (e : β ≃ β) : β → List β → List β
  | _, [] => []
  | previous, c :: cs => combine (e.symm c) previous :: decryptBlocks combine e c cs

theorem decrypt_encrypt (hcombine : ∀ x y, combine (combine x y) y = x) (previous : β)
    (ps : List β) :
    decryptBlocks combine e previous (encryptBlocks combine e previous ps) = ps := by
  induction ps generalizing previous with
  | nil => rfl
  | cons p ps ih => rw [encryptBlocks, decryptBlocks, e.symm_apply_apply, hcombine, ih]

theorem encrypt_decrypt (hcombine : ∀ x y, combine (combine x y) y = x) (previous : β)
    (cs : List β) :
    encryptBlocks combine e previous (decryptBlocks combine e previous cs) = cs := by
  induction cs generalizing previous with
  | nil => rfl
  | cons c cs ih => rw [decryptBlocks, encryptBlocks, hcombine, e.apply_symm_apply, ih]

theorem length_encryptBlocks (previous : β) (ps : List β) :
    (encryptBlocks combine e previous ps).length = ps.length := by
  induction ps generalizing previous with
  | nil => rfl
  | cons p ps ih => rw [encryptBlocks, List.length_cons, List.length_cons, ih]

end Chaining

end BlockChaining
