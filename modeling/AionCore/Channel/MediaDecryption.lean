import AionCore.Lib.BlockChaining
import AionCore.Conversation.StreamRelay
import Mathlib.Logic.Equiv.Basic

/-!
# Channels: the decryption of WeCom media

`decrypt_media` and `decode_aes_key` of the WeCom plugin. The block cipher is a bijection of blocks
for each key; the readers of base64 and of hexadecimal numbers are parameters. What would panic is
`none`.
-/

namespace AionCore.Channel.Wecom

open BlockChaining
open AionCore.Conversation (trim)

abbrev AesBlock := Block UInt8 16

/-- AES-256: the encryption of a block under each key. -/
abbrev Aes256 := List UInt8 → AesBlock ≃ AesBlock

/-- What reads the text of a key: the engines for base64, and `hex::decode`. -/
structure KeyReaders where
  standard : String → Option (List UInt8)
  standardNoPad : String → Option (List UInt8)
  urlSafe : String → Option (List UInt8)
  urlSafeNoPad : String → Option (List UInt8)
  hex : String → Option (List UInt8)

def xorBlock (b c : AesBlock) : AesBlock :=
  ⟨List.zipWith (· ^^^ ·) b.1 c.1, by rw [List.length_zipWith, b.2, c.2, Nat.min_self]⟩

def decodeAesKey (read : KeyReaders) (value : String) : Except String (List UInt8) :=
  let value := trim value
  let decoded := (((read.standard value).or (read.standardNoPad value)).or (read.urlSafe value)).or
    (read.urlSafeNoPad value)
  match (decoded.filter (·.length = 32)).or ((read.hex value).filter (·.length = 32)) with
  | some bytes => .ok bytes
  | none => .error "aeskey is not a 32-byte base64/hex key"

def decryptChunks (cipher : AesBlock ≃ AesBlock) :
    AesBlock → List UInt8 → List (List UInt8) → Option (List UInt8)
  | _, plaintext, [] => some plaintext
  | previous, plaintext, chunk :: chunks =>
    (asBlock 16 chunk).bind fun block =>
      decryptChunks cipher block (plaintext ++ (xorBlock (cipher.symm block) previous).1) chunks

/-- `&bytes[from..]`, where `from` is the length less some number. -/
def lastBytes (bytes : List UInt8) (n : ℕ) : Option (List UInt8) :=
  if n ≤ bytes.length then some (bytes.drop (bytes.length - n)) else none

/-- The check of the padding, and its removal. -/
def unpad (plaintext : List UInt8) : Option (Except String (List UInt8)) :=
  match plaintext.getLast? with
  | none => some (.error "decrypted media is empty")
  | some last =>
    let padding := last.toNat
    if ¬(1 ≤ padding ∧ padding ≤ 32) ∨ padding > plaintext.length then
      some (.error "invalid PKCS#7 padding")
    else
      (lastBytes plaintext padding).map fun tail =>
        if tail.all (·.toNat = padding) then .ok (plaintext.take (plaintext.length - padding))
        else .error "invalid PKCS#7 padding"

def decryptMedia (read : KeyReaders) (aes : Aes256) (encrypted : List UInt8) (aeskey : String) :
    Option (Except String (List UInt8)) :=
  match decodeAesKey read aeskey with
  | .error e => some (.error e)
  | .ok key =>
    if encrypted = [] ∨ ¬16 ∣ encrypted.length then
      some (.error "encrypted media has invalid block length")
    else if key.length ≠ 32 then some (.error "invalid AES key")
    else
      (asBlock 16 (key.take 16)).bind fun previous =>
        (decryptChunks (aes key) previous [] (chunksExact 16 encrypted)).bind unpad

/-- The bytes padded with `n` times `n`. -/
def padWith (plaintext : List UInt8) (n : ℕ) : List UInt8 :=
  plaintext ++ List.replicate n (UInt8.ofNat n)

/-- PKCS#7 with blocks of 32 bytes. -/
def pad (plaintext : List UInt8) : List UInt8 := padWith plaintext (32 - plaintext.length % 32)

/-- Cipher block chaining, with the first bytes of the key before the first block. -/
def encryptCbc (aes : Aes256) (key padded : List UInt8) : List UInt8 :=
  ((asBlock 16 (key.take 16)).map fun previous =>
    ofBlocks (encryptBlocks xorBlock (aes key) previous (toBlocks 16 padded))).getD []

variable {read : KeyReaders} {aes : Aes256} {aeskey : String}
  {key plaintext padded encrypted : List UInt8} {n : ℕ}

theorem xorBlock_xorBlock (b c : AesBlock) : xorBlock (xorBlock b c) c = b := by
  apply Subtype.ext
  refine List.ext_getElem ?_ fun i hi hi' => ?_
  · rw [(xorBlock (xorBlock b c) c).2, b.2]
  · simp [xorBlock, UInt8.xor_assoc]

theorem length_key (h : decodeAesKey read aeskey = .ok key) : key.length = 32 := by
  rw [decodeAesKey] at h
  split at h
  · rename_i bytes hbytes
    obtain rfl := Except.ok.inj h
    rcases Option.or_eq_some_iff.mp hbytes with hbytes | ⟨-, hbytes⟩
    · exact of_decide_eq_true (Option.filter_eq_some_iff.mp hbytes).2
    · exact of_decide_eq_true (Option.filter_eq_some_iff.mp hbytes).2
  · cases h

/-- The loop decrypts the blocks. -/
theorem decryptChunks_ofBlocks (cipher : AesBlock ≃ AesBlock) (previous : AesBlock)
    (cs : List AesBlock) :
    decryptChunks cipher previous plaintext (chunksExact 16 (ofBlocks cs)) =
      some (plaintext ++ ofBlocks (decryptBlocks xorBlock cipher previous cs)) := by
  rw [chunksExact_ofBlocks (by decide)]
  induction cs generalizing previous plaintext with
  | nil =>
    rw [decryptBlocks, ofBlocks, List.flatMap_nil, List.append_nil]
    rfl
  | cons c cs ih =>
    rw [List.map_cons, decryptChunks, asBlock_val, Option.bind_some, ih, decryptBlocks,
      List.append_assoc]
    rfl

/-- What comes out of well-formed bytes: the decrypted blocks without their padding. -/
theorem decryptMedia_eq (aes : Aes256) (hkey : decodeAesKey read aeskey = .ok key)
    {cs : List AesBlock} (hcs : cs ≠ []) :
    ∃ previous : AesBlock, asBlock 16 (key.take 16) = some previous ∧
      decryptMedia read aes (ofBlocks cs) aeskey =
        unpad (ofBlocks (decryptBlocks xorBlock (aes key) previous cs)) := by
  have hlength := length_key hkey
  have htake : (key.take 16).length = 16 := by rw [List.length_take, hlength]; rfl
  refine ⟨⟨key.take 16, htake⟩, dif_pos htake, ?_⟩
  have hwhole : ¬(ofBlocks cs = [] ∨ ¬16 ∣ (ofBlocks cs).length) := by
    rw [length_ofBlocks, not_or, not_not]
    refine ⟨fun hnil => ?_, Nat.dvd_mul_left 16 cs.length⟩
    have hzero := congrArg List.length hnil
    rw [length_ofBlocks, List.length_nil, Nat.mul_eq_zero] at hzero
    exact hcs (List.eq_nil_of_length_eq_zero (hzero.resolve_right (by decide)))
  rw [decryptMedia, hkey]
  dsimp only
  rw [if_neg hwhole, if_neg (not_not.mpr hlength), asBlock, dif_pos htake, Option.bind_some,
    decryptChunks_ofBlocks, Option.bind_some, List.nil_append]

theorem toNat_ofNat (hn : n ≤ 32) : (UInt8.ofNat n).toNat = n := by
  rw [UInt8.toNat_ofNat']
  exact Nat.mod_eq_of_lt (by omega)

theorem length_padWith : (padWith plaintext n).length = plaintext.length + n := by
  rw [padWith, List.length_append, List.length_replicate]

theorem unpad_padWith (h : 1 ≤ n ∧ n ≤ 32) :
    unpad (padWith plaintext n) = some (.ok plaintext) := by
  have hlast : (padWith plaintext n).getLast? = some (UInt8.ofNat n) := by
    rw [padWith, List.getLast?_append_of_ne_nil _ (by simp; omega), List.getLast?_replicate,
      if_neg (by omega)]
  have htail : (padWith plaintext n).drop ((padWith plaintext n).length - n) =
      List.replicate n (UInt8.ofNat n) := by
    rw [length_padWith, Nat.add_sub_cancel, padWith, List.drop_left]
  rw [unpad, hlast]
  dsimp only
  rw [toNat_ofNat h.2, if_neg (by rw [length_padWith]; omega), lastBytes,
    if_pos (by rw [length_padWith]; omega), htail, Option.map_some, if_pos, length_padWith,
    Nat.add_sub_cancel, padWith, List.take_left]
  refine List.all_eq_true.mpr fun b hb => decide_eq_true ?_
  rw [List.eq_of_mem_replicate hb, toNat_ofNat h.2]

/-- What is accepted was padded. -/
theorem unpad_cases (bytes : List UInt8) : ∃ result, unpad bytes = some result ∧
    ∀ p, result = .ok p → ∃ n, 1 ≤ n ∧ n ≤ 32 ∧ bytes = padWith p n := by
  rw [unpad]
  split
  · exact ⟨_, rfl, fun p h => by cases h⟩
  · rename_i last hlast
    dsimp only
    split
    · exact ⟨_, rfl, fun p h => by cases h⟩
    · rename_i hpadding
      rw [not_or, not_not, not_lt] at hpadding
      obtain ⟨⟨hlo, hhi⟩, hle⟩ := hpadding
      rw [lastBytes, if_pos hle, Option.map_some]
      refine ⟨_, rfl, fun p h => ⟨last.toNat, hlo, hhi, ?_⟩⟩
      split at h
      · rename_i hall
        obtain rfl := Except.ok.inj h
        have htail : bytes.drop (bytes.length - last.toNat) =
            List.replicate last.toNat (UInt8.ofNat last.toNat) := by
          refine List.eq_replicate_iff.mpr ⟨?_, fun b hb => ?_⟩
          · rw [List.length_drop]
            omega
          · have hb := of_decide_eq_true (List.all_eq_true.mp hall b hb)
            rw [← hb, UInt8.ofNat_toNat]
        rw [padWith, ← htail, List.take_append_drop]
      · cases h

theorem length_pad : 32 ∣ (pad plaintext).length := by
  rw [pad, length_padWith]
  omega

/-- Decryption takes back the encryption of padded bytes. -/
theorem decryptMedia_encryptCbc (hkey : decodeAesKey read aeskey = .ok key)
    (hlength : 16 ∣ padded.length) (hne : padded ≠ []) :
    decryptMedia read aes (encryptCbc aes key padded) aeskey = unpad padded := by
  have hlengthkey := length_key hkey
  have htake : (key.take 16).length = 16 := by rw [List.length_take, hlengthkey]; rfl
  have hencrypt : encryptCbc aes key padded =
      ofBlocks (encryptBlocks xorBlock (aes key) ⟨key.take 16, htake⟩ (toBlocks 16 padded)) := by
    rw [encryptCbc, asBlock, dif_pos htake, Option.map_some, Option.getD_some]
  have hblocks :
      encryptBlocks xorBlock (aes key) ⟨key.take 16, htake⟩ (toBlocks 16 padded) ≠ [] := by
    intro hnil
    have hzero : (encryptBlocks xorBlock (aes key) ⟨key.take 16, htake⟩
        (toBlocks 16 padded)).length = (toBlocks 16 padded).length := length_encryptBlocks _ _
    rw [hnil] at hzero
    have hempty := ofBlocks_toBlocks (by decide) hlength
    rw [List.eq_nil_of_length_eq_zero hzero.symm] at hempty
    exact hne hempty.symm
  obtain ⟨previous, hprevious, heq⟩ := decryptMedia_eq aes hkey hblocks
  rw [asBlock, dif_pos htake] at hprevious
  rw [hencrypt, heq, ← Option.some.inj hprevious, decrypt_encrypt xorBlock_xorBlock,
    ofBlocks_toBlocks (by decide) hlength]

def zeroKeyText : String := "AAAAAAAAAAAAAAAAAAAAAAAAAAAAAAAAAAAAAAAAAAA="

/-- What the readers make of that text. -/
def zeroKeyReaders : KeyReaders where
  standard text := if text = zeroKeyText then some (List.replicate 32 0) else none
  standardNoPad _ := none
  urlSafe text := if text = zeroKeyText then some (List.replicate 32 0) else none
  urlSafeNoPad _ := none
  hex _ := none

def greeting : List UInt8 := [104, 105]

def firstBlock : AesBlock :=
  ⟨[1, 76, 29, 124, 175, 77, 154, 36, 63, 129, 242, 121, 241, 42, 131, 103], rfl⟩

def secondBlock : AesBlock :=
  ⟨[61, 194, 228, 90, 97, 124, 209, 16, 139, 53, 175, 202, 65, 240, 105, 33], rfl⟩

/-- The cipher under the key of zeros, on the two blocks of the padded greeting. -/
def zeroKeyAes : Aes256 := fun _ =>
  (Equiv.swap ⟨[104, 105, 30, 30, 30, 30, 30, 30, 30, 30, 30, 30, 30, 30, 30, 30], rfl⟩
    firstBlock).trans
    (Equiv.swap ⟨[31, 82, 3, 98, 177, 83, 132, 58, 33, 159, 236, 103, 239, 52, 157, 121], rfl⟩
      secondBlock)

end AionCore.Channel.Wecom
