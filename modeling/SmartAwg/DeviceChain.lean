import SmartAwg.ConfSafety
import SmartAwg.DeviceObf

/-!
Writing a packet with an obfuscation chain. Each element writes its part of the buffer; a slice or an
index outside it is a panic. A chain fits into a buffer of the length it announces.
-/

namespace SmartAwg.Awg

open Go Conf

section writing

/-- What the elements take from outside: random bytes, and the seconds of the clock. -/
structure Noise where
  byte : Nat → UInt8
  now : UInt32

def chars52 : Str := ascii "abcdefghijklmnopqrstuvwxyzABCDEFGHIJKLMNOPQRSTUVWXYZ"

def digits10 : Str := ascii "0123456789"

/-- The built-in `copy`, with the destination after it. -/
def copyInto (dst src : Str) : Str := src.take dst.length ++ dst.drop src.length

/-- `rand.Read(dst[:length])`. -/
def readRandom (noise : Noise) (length : Nat) (dst : Str) : Outcome Empty Str :=
  slice dst 0 length >>= fun front => .ok ((List.range front.length).map noise.byte ++ dst.drop length)

/-- The loop that replaces the first bytes by characters of a table. -/
def fromTable (table : Str) : Nat → Str → Outcome Empty Str
  | 0, dst => .ok dst
  | _ + 1, [] => .ok []
  | n + 1, b :: dst =>
    index table (b.toNat % table.length) >>= fun c =>
    fromTable table n dst >>= fun rest => .ok (c :: rest)

/-- The loop of `dataSizeObf.Obfuscate`, from the last byte to the first. -/
def writeSize : Nat → Nat → Str → Outcome Empty Str
  | 0, _, dst => .ok dst
  | i + 1, srcLen, dst =>
    index dst i >>= fun _ => writeSize i (srcLen / 256) (dst.set i (srcLen % 256).toUInt8)

def bigEndian (t : UInt32) : Str :=
  [(t >>> 24).toUInt8, (t >>> 16).toUInt8, (t >>> 8).toUInt8, t.toUInt8]

/-- `base64.RawStdEncoding`. -/
def rawEncode : Str → Str
  | a :: b :: c :: rest => base64Group a.toNat b.toNat c.toNat 4 ++ rawEncode rest
  | [a, b] => base64Group a.toNat b.toNat 0 3
  | [a] => base64Group a.toNat 0 0 2
  | [] => []

/-- `Obfuscate` of one element, with the destination after it. -/
def Obf.obfuscate (noise : Noise) (src dst : Str) : Obf → Outcome Empty Str
  | .bytes content => .ok (copyInto dst content)
  | .timestamp => index dst 3 >>= fun _ => .ok (bigEndian noise.now ++ dst.drop 4)
  | .rand length => readRandom noise length dst
  | .randChar length => readRandom noise length dst >>= fromTable chars52 length
  | .randDigits length => readRandom noise length dst >>= fromTable digits10 length
  | .data => .ok (copyInto dst src)
  | .dataString =>
    -- nothing is written for an empty source
    if src = [] then .ok dst
    else slice dst 0 (rawEncode src).length >>= fun _ => .ok (rawEncode src ++ dst.drop (rawEncode src).length)
  | .dataSize length => writeSize length src.length dst

/-- The loop of `obfChain.Obfuscate`; each element has noise of its own. -/
def obfuscateFrom (noise : Nat → Noise) (src : Str) : Nat → Nat → List Obf → Str → Outcome Empty Str
  | _, _, [], dst => .ok dst
  | i, written, o :: rest, dst =>
    slice dst written (written + o.obfuscatedLen src.length) >>= fun part =>
    o.obfuscate (noise i) src part >>= fun part' =>
    obfuscateFrom noise src (i + 1) (written + o.obfuscatedLen src.length) rest
      (dst.take written ++ part' ++ dst.drop (written + o.obfuscatedLen src.length))

def ObfChain.obfuscate (noise : Nat → Noise) (chain : ObfChain) (dst src : Str) : Outcome Empty Str :=
  obfuscateFrom noise src 0 0 chain.obfs dst

def ObfChain.obfuscatedLen (chain : ObfChain) (n : Nat) : Nat :=
  chain.obfs.foldl (fun total o => total + o.obfuscatedLen n) 0

end writing

section fits

/-- The call returns, and the buffer keeps its length. -/
def Fills (dst : Str) (result : Outcome Empty Str) : Prop :=
  ∃ out, result = .ok out ∧ out.length = dst.length

theorem copyInto_length (dst src : Str) : (copyInto dst src).length = dst.length := by
  rw [copyInto, List.length_append, List.length_take, List.length_drop]
  omega

theorem readRandom_fills (noise : Noise) (dst : Str) : Fills dst (readRandom noise dst.length dst) := by
  refine ⟨_, by rw [readRandom, slice_of_le _ _ _ (Nat.zero_le _) (Nat.le_refl _), Outcome.ok_bind], ?_⟩
  simp

/-- An index into a table by a remainder is in range. -/
theorem fromTable_fills (table : Str) (hne : table ≠ []) (n : Nat) (dst : Str) :
    Fills dst (fromTable table n dst) := by
  induction dst generalizing n with
  | nil => cases n <;> exact ⟨[], rfl, rfl⟩
  | cons b dst ih =>
    cases n with
    | zero => exact ⟨b :: dst, rfl, rfl⟩
    | succ n =>
      obtain ⟨rest, hrest, hlen⟩ := ih n
      have hlt : b.toNat % table.length < table.length := Nat.mod_lt _ (List.length_pos_iff.mpr hne)
      rw [fromTable, index_of_lt table _ hlt, Outcome.ok_bind, hrest]
      exact ⟨_, rfl, by rw [List.length_cons, List.length_cons, hlen]⟩

theorem writeSize_fills (i srcLen : Nat) (dst : Str) (h : i ≤ dst.length) :
    Fills dst (writeSize i srcLen dst) := by
  induction i generalizing srcLen dst with
  | zero => exact ⟨dst, rfl, rfl⟩
  | succ i ih =>
    rw [writeSize, index_of_lt dst i h, Outcome.ok_bind]
    obtain ⟨out, hout, hlen⟩ := ih (srcLen / 256) (dst.set i (srcLen % 256).toUInt8)
      (by rw [List.length_set]; omega)
    exact ⟨out, hout, by rw [hlen, List.length_set]⟩

theorem base64Group_length (a b c n : Nat) (h : n ≤ 4) : (base64Group a b c n).length = n := by
  rw [base64Group, List.length_take, List.length_map]
  exact Nat.min_eq_left h

theorem rawEncode_length (src : Str) : (rawEncode src).length = rawEncodedLen src.length := by
  fun_induction rawEncode src with
  | case1 a b c rest ih =>
    rw [List.length_append, ih, base64Group_length _ _ _ _ (by decide)]
    simp only [rawEncodedLen, List.length_cons]
    omega
  | case2 =>
    rw [base64Group_length _ _ _ 3 (by decide)]
    simp [rawEncodedLen]
  | case3 =>
    rw [base64Group_length _ _ _ 2 (by decide)]
    simp [rawEncodedLen]
  | case4 => rfl

/-- An element fits into a part of the length it announces. -/
theorem obfuscate_fills (noise : Noise) (src dst : Str) (o : Obf)
    (h : dst.length = o.obfuscatedLen src.length) : Fills dst (o.obfuscate noise src dst) := by
  cases o with
  | bytes content => exact ⟨_, rfl, copyInto_length _ _⟩
  | timestamp =>
    have hlen : dst.length = 4 := h
    rw [Obf.obfuscate, index_of_lt dst 3 (by omega)]
    exact ⟨_, rfl, by rw [List.length_append, List.length_drop, hlen]; rfl⟩
  | rand length =>
    obtain rfl : dst.length = length := h
    exact readRandom_fills noise dst
  | randChar length =>
    obtain rfl : dst.length = length := h
    obtain ⟨mid, hmid, hlen⟩ := readRandom_fills noise dst
    rw [Obf.obfuscate, hmid, Outcome.ok_bind]
    obtain ⟨out, hout, hlen'⟩ := fromTable_fills chars52 (by decide) dst.length mid
    exact ⟨out, hout, hlen'.trans hlen⟩
  | randDigits length =>
    obtain rfl : dst.length = length := h
    obtain ⟨mid, hmid, hlen⟩ := readRandom_fills noise dst
    rw [Obf.obfuscate, hmid, Outcome.ok_bind]
    obtain ⟨out, hout, hlen'⟩ := fromTable_fills digits10 (by decide) dst.length mid
    exact ⟨out, hout, hlen'.trans hlen⟩
  | data => exact ⟨_, rfl, copyInto_length _ _⟩
  | dataString =>
    have hlen : dst.length = (rawEncode src).length := h.trans (rawEncode_length src).symm
    unfold Obf.obfuscate
    simp only
    split
    · exact ⟨dst, rfl, rfl⟩
    · rw [slice_of_le _ _ _ (Nat.zero_le _) (Nat.le_of_eq hlen.symm), Outcome.ok_bind]
      exact ⟨_, rfl, by rw [List.length_append, List.length_drop, hlen]; omega⟩
  | dataSize length => exact writeSize_fills length _ dst (Nat.le_of_eq h.symm)

/-- The loop stays inside a buffer with room for the elements that are left. -/
theorem obfuscateFrom_fills (noise : Nat → Noise) (src : Str) (i written : Nat) (obfs : List Obf)
    (dst : Str) (h : written + (obfs.map (Obf.obfuscatedLen src.length)).sum = dst.length) :
    Fills dst (obfuscateFrom noise src i written obfs dst) := by
  induction obfs generalizing i written dst with
  | nil => exact ⟨dst, rfl, rfl⟩
  | cons o rest ih =>
    rw [List.map_cons, List.sum_cons] at h
    generalize hlen : o.obfuscatedLen src.length = len at h
    have hpart : ((dst.take (written + len)).drop written).length = len := by
      rw [List.length_drop, List.length_take]
      omega
    obtain ⟨part, hwritten, hkept⟩ := obfuscate_fills (noise i) src
      ((dst.take (written + len)).drop written) o (hpart.trans hlen.symm)
    rw [obfuscateFrom, hlen, slice_of_le _ _ _ (by omega) (by omega), Outcome.ok_bind, hwritten,
      Outcome.ok_bind]
    -- the part is replaced by one of the same length
    have hsame : (dst.take written ++ part ++ dst.drop (written + len)).length = dst.length := by
      rw [List.length_append, List.length_append, List.length_take, List.length_drop, hkept, hpart]
      omega
    obtain ⟨out, hout, hfinal⟩ := ih (i + 1) (written + len)
      (dst.take written ++ part ++ dst.drop (written + len)) (by rw [hsame]; omega)
    exact ⟨out, hout, hfinal.trans hsame⟩

theorem obfuscatedLen_eq_sum (chain : ObfChain) (n : Nat) :
    chain.obfuscatedLen n = (chain.obfs.map (Obf.obfuscatedLen n)).sum := by
  rw [ObfChain.obfuscatedLen, List.sum_eq_foldl, List.foldl_map]

end fits

section accepted

/-- A description the validator accepts builds a chain with one element for each tag. The chain
announces the size the validator summed, and writes within it. -/
theorem accepted_cps_chain (spec : Str) :
    (validateCPS spec).Safe ∧ (validateCPS spec = .ok () →
      ∃ chain tags size count, newObfChain spec = .ok (some chain) ∧
        CpsText spec tags ∧
        List.Forall₂ (fun inside o => buildTag inside = .ok o) tags chain.obfs ∧
        cpsScan spec.length (trimSpace spec) 0 0 0 = .ok (size, count) ∧
        chain.obfs.length = count ∧ chain.obfuscatedLen 0 = size ∧ size ≤ 65507 ∧
        ∀ noise dst, dst.length = chain.obfuscatedLen 0 →
          ∃ out, chain.obfuscate noise dst [] = .ok out ∧ out.length = dst.length) := by
  refine ⟨validateCPS_safe spec, fun h => ?_⟩
  obtain ⟨size, count, hscan, hcount⟩ := cpsScan_of_validateCPS spec h
  obtain ⟨tags, obfs, hchain, hbuilds, hsize, hlen, hmax⟩ :=
    newObfChain_of_scan spec size count hcount hscan
  have hsum := obfuscatedLen_eq_sum ⟨spec, obfs⟩ 0
  refine ⟨⟨spec, obfs⟩, tags, size, count, hchain, hbuilds.text, hbuilds.elements, hscan, hlen.symm,
    hsum.trans hsize.symm, hmax, ?_⟩
  intro noise dst hdst
  apply obfuscateFrom_fills
  rw [Nat.zero_add, hdst, hsum, List.length_nil]

/-- Bytes, a timestamp, random letters and the size of the data, with blanks between and inside. -/
def mixedPacket : Str := ascii " <b 0x0aFF>\t< t ><rc 7> <dz 02>"

theorem accepted_cps_mixed :
    validateCPS mixedPacket = .ok () ∧ ∃ chain, newObfChain mixedPacket = .ok (some chain) ∧
      chain.obfs = [.bytes [0x0A, 0xFF], .timestamp, .randChar 7, .dataSize 2] ∧
      chain.obfuscatedLen 0 ≤ 65507 := by
  have hvalid : validateCPS mixedPacket = .ok () := by decide +kernel
  obtain ⟨chain, tags, size, count, hchain, -, -, -, -, hsize, hmax, -⟩ :=
    (accepted_cps_chain mixedPacket).2 hvalid
  have hobfs : newObfChain mixedPacket =
      .ok (some ⟨mixedPacket, [.bytes [0x0A, 0xFF], .timestamp, .randChar 7, .dataSize 2]⟩) := by
    decide +kernel
  rw [hobfs] at hchain
  cases hchain
  exact ⟨hvalid, _, hobfs, rfl, hsize ▸ hmax⟩

end accepted

end SmartAwg.Awg
