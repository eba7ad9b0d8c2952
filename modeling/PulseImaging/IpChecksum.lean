import PulseImaging.UdpEmulation
import PulseImaging.OnesComplement

/-! `ipchksum` subtracts `0xFFFF` where there was a carry, which is the one's complement addition. -/

namespace PulseImaging

def wordsBytes (ws : List UInt16) : List Byte := ws.flatMap ushortBytes

theorem wordsBytes_length (ws : List UInt16) : (wordsBytes ws).length = 2 * ws.length := by
  induction ws with
  | nil => rfl
  | cons w ws ih =>
    rw [wordsBytes, List.flatMap_cons, List.length_append, ushortBytes_length, ← wordsBytes, ih,
      List.length_cons]
    omega

theorem ushortBytes_eq (w : UInt16) :
    ∃ a b : Byte, ushortBytes w = [a, b] ∧ a.toNat + 256 * b.toNat = w.toNat := by
  refine ⟨UInt8.ofNat w.toNat, UInt8.ofNat (w.toNat / 256), rfl, ?_⟩
  have h := leValue_leBytes 2 w.toNat
  rw [Nat.mod_eq_of_lt (show w.toNat < 256 ^ 2 from w.toNat_lt), leBytes, leBytes, leBytes,
    leValue_cons, leValue_cons, leValue_nil, Nat.mul_zero, Nat.add_zero] at h
  exact h

/-- One turn of the loop. -/
theorem ipsum_ushortBytes {sum : Nat} (h : sum ≤ 0xFFFF) (w : UInt16) (s : List Byte) :
    ipsum sum (ushortBytes w ++ s) = ipsum (onesAdd 0xFFFF sum w.toNat) s := by
  obtain ⟨a, b, hbytes, hvalue⟩ := ushortBytes_eq w
  have hw : w.toNat ≤ 0xFFFF := Nat.le_of_lt_succ w.toNat_lt
  have hturn : ipsum sum (a :: b :: s) =
      ipsum (if sum + (a.toNat + 256 * b.toNat) > 0xFFFF then sum + (a.toNat + 256 * b.toNat) - 0xFFFF
        else sum + (a.toNat + 256 * b.toNat)) s := rfl
  rw [hbytes, List.cons_append, List.cons_append, List.nil_append, hturn, hvalue, onesAdd_eq h hw]

theorem ipsum_wordsBytes {sum : Nat} (h : sum ≤ 0xFFFF) (ws : List UInt16) :
    ipsum sum (wordsBytes ws) = (ws.map UInt16.toNat).foldl (onesAdd 0xFFFF) sum := by
  induction ws generalizing sum with
  | nil => rfl
  | cons w ws ih =>
    have hw : w.toNat ≤ 0xFFFF := Nat.le_of_lt_succ w.toNat_lt
    rw [wordsBytes, List.flatMap_cons, ipsum_ushortBytes h, ← wordsBytes, ih (onesAdd_le h hw)]
    rfl

theorem ipsum_eq (ws : List UInt16) :
    ipsum 0 (wordsBytes ws) = onesSum 0xFFFF (ws.map UInt16.toNat) :=
  ipsum_wordsBytes (Nat.zero_le _) ws

theorem toNat_le_of_mem {ws : List UInt16} {v : Nat} (h : v ∈ ws.map UInt16.toNat) : v ≤ 0xFFFF := by
  obtain ⟨w, -, rfl⟩ := List.mem_map.mp h
  exact Nat.le_of_lt_succ w.toNat_lt

theorem ipsum_le (ws : List UInt16) : ipsum 0 (wordsBytes ws) ≤ 0xFFFF := by
  rw [ipsum_eq]
  exact onesSum_le (fun _ => toNat_le_of_mem)

theorem ipchksum_toNat (ws : List UInt16) :
    (ipchksum (wordsBytes ws)).toNat = 0xFFFF - onesSum 0xFFFF (ws.map UInt16.toNat) := by
  have hle := ipsum_le ws
  rw [ipchksum, UInt16.toNat_not, UInt16.toNat_ofNat_of_lt' (Nat.lt_succ_of_le hle), ipsum_eq]
  rfl

/-- The checksum over a header into which it was filled where a zero stood. -/
theorem ipchksum_filled (us ws : List UInt16) :
    ipchksum (wordsBytes (us ++ ipchksum (wordsBytes (us ++ 0 :: ws)) :: ws)) = 0 := by
  apply UInt16.toNat_inj.mp
  have hfilled := @onesSum_filled 0xFFFF (us.map UInt16.toNat) (ws.map UInt16.toNat)
    (fun _ => toNat_le_of_mem) (fun _ => toNat_le_of_mem)
  have hchksum : (ipchksum (wordsBytes (us ++ 0 :: ws))).toNat =
      0xFFFF - onesSum 0xFFFF (us.map UInt16.toNat ++ 0 :: ws.map UInt16.toNat) := by
    rw [ipchksum_toNat, List.map_append, List.map_cons]
    rfl
  rw [ipchksum_toNat, List.map_append, List.map_cons, hchksum, hfilled]
  rfl

/-! ### The header -/

/-- The words of an address, the low one first. -/
theorem ulongBytes_eq (v : UInt32) :
    ulongBytes v = wordsBytes [UInt16.ofNat v.toNat, UInt16.ofNat (v.toNat / 65536)] := by
  have hlow : leBytes 4 v.toNat = leBytes 2 v.toNat ++ leBytes 2 (v.toNat / 65536) := by
    rw [show v.toNat / 65536 = v.toNat / 256 / 256 by rw [Nat.div_div_eq_div_mul]]
    rfl
  have hmod : ∀ n, leBytes 2 (n % 65536) = leBytes 2 n := by
    intro n
    have hfirst : UInt8.ofNat (n % 65536) = UInt8.ofNat n := UInt8.toNat_inj.mp (by simp)
    have hsecond : UInt8.ofNat (n % 65536 / 256) = UInt8.ofNat (n / 256) :=
      UInt8.toNat_inj.mp (by simp; omega)
    simp only [leBytes, hfirst, hsecond]
  rw [ulongBytes, hlow, wordsBytes, List.flatMap_cons, List.flatMap_cons, List.flatMap_nil,
    List.append_nil, ushortBytes, ushortBytes, UInt16.toNat_ofNat', UInt16.toNat_ofNat', hmod, hmod]

theorem iphdr_eq (len chksum : UInt16) (src dest : UInt32) :
    iphdr len chksum src dest = wordsBytes ([0x45, len, 0, 0, 0x113C] ++ chksum ::
      [UInt16.ofNat src.toNat, UInt16.ofNat (src.toNat / 65536), UInt16.ofNat dest.toNat,
        UInt16.ofNat (dest.toNat / 65536)]) := by
  have hfirst : ushortBytes 0x45 = [0x45, 0] := by decide
  have hfifth : ushortBytes 0x113C = [60, UDP] := by decide
  rw [iphdr, ulongBytes_eq, ulongBytes_eq]
  simp only [wordsBytes, List.flatMap_append, List.flatMap_cons, List.flatMap_nil, List.append_nil,
    hfirst, hfifth, List.append_assoc]

theorem iphdr_length (len chksum : UInt16) (src dest : UInt32) :
    (iphdr len chksum src dest).length = 20 := by
  rw [iphdr_eq, wordsBytes_length]
  rfl

theorem datagram_header (client : UInt32) (w : UdpWrite) :
    let len := htons (UInt16.ofNat (20 + 8 + w.buffer.length))
    (datagram client w).take 20 = iphdr len (ipchksum (iphdr len 0 client w.ip)) client w.ip := by
  intro len
  rw [datagram, List.append_assoc]
  exact List.take_left' (iphdr_length _ _ _ _)

theorem ipchksum_iphdr (len : UInt16) (src dest : UInt32) :
    ipchksum (iphdr len (ipchksum (iphdr len 0 src dest)) src dest) = 0 := by
  rw [iphdr_eq len (ipchksum _), iphdr_eq len 0]
  exact ipchksum_filled _ _

/-- The sum stays a word, its complement is that of the one's complement sum, and a header that is sent checks. -/
theorem ipchksum_ones_complement :
    (∀ (ws : List UInt16) (n : Nat), ipsum 0 (wordsBytes (ws.take n)) ≤ 0xFFFF) ∧
      (∀ ws : List UInt16, ipchksum (wordsBytes ws) =
        ~~~ UInt16.ofNat (onesSum 0xFFFF (ws.map UInt16.toNat))) ∧
      ∀ (client : UInt32) (w : UdpWrite), ipchksum ((datagram client w).take 20) = 0 := by
  refine ⟨fun ws n => ipsum_le (ws.take n), fun ws => ?_, fun client w => ?_⟩
  · rw [ipchksum, ipsum_eq]
  · rw [datagram_header]
    exact ipchksum_iphdr _ _ _

end PulseImaging
