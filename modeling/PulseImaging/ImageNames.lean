import PulseImaging.AutoSave

/-! The names of the files that the image tools write, over a whole backup. -/

namespace PulseImaging

/-! ### Texts that end in a number of at least three digits -/

theorem pad3_length (n : Nat) : 3 ≤ (pad3 n).length := by
  simp only [pad3, List.length_append, List.length_replicate]
  omega

theorem pad3_of_le {n : Nat} (h : 3 ≤ (decimal n).length) : pad3 n = decimal n := by
  simp [pad3, Nat.sub_eq_zero_of_le h]

theorem digitsValue_zeros (k : Nat) (ds : List Byte) :
    digitsValue (List.replicate k (digitByte 0) ++ ds) = digitsValue ds := by
  induction k with
  | zero => rfl
  | succ k ih =>
    rw [List.replicate_succ, List.cons_append, ← ih]
    rfl

theorem pad3_injective : Function.Injective pad3 := fun a b h => by
  have hv := congrArg digitsValue h
  rwa [pad3, pad3, digitsValue_zeros, digitsValue_zeros, digitsValue_decimal,
    digitsValue_decimal] at hv

/-- Cutting digits off the end of a number divides it. -/
theorem decimal_eq_append {n : Nat} {t u : List Byte} (h : decimal n = t ++ u) (ht : t ≠ []) :
    t = decimal (n / 10 ^ u.length) := by
  induction u using List.reverseRecOn generalizing n with
  | nil => simpa using h.symm
  | append_singleton u d ih =>
    have hn : 10 ≤ n := by
      by_contra hlt
      have hlen := congrArg List.length h
      rw [decimal_lt_ten (by omega)] at hlen
      have htpos := List.length_pos_of_ne_nil ht
      simp only [List.length_append, List.length_cons, List.length_nil] at hlen
      omega
    rw [decimal_ge_ten hn, ← List.append_assoc] at h
    have hi := ih (List.append_inj_left' h rfl)
    rw [hi, Nat.div_div_eq_div_mul, List.length_append, List.length_singleton, Nat.pow_succ,
      Nat.mul_comm]

theorem pow_le_of_decimal_length {n k : Nat} (hk : 0 < k) (h : k < (decimal n).length) :
    10 ^ k ≤ n := by
  by_contra hlt
  have hle := decimal_length_le hk (by omega : n < 10 ^ k)
  omega

theorem decimal_mul_thousand {k : Nat} (hk : 0 < k) : pad3 (1000 * k) = decimal k ++ pad3 0 := by
  have h : decimal (1000 * k) = decimal k ++ [digitByte 0, digitByte 0, digitByte 0] := by
    rw [decimal_ge_ten (by omega), decimal_ge_ten (by omega), decimal_ge_ten (by omega)]
    rw [show 1000 * k / 10 / 10 / 10 = k by omega, show 1000 * k / 10 / 10 % 10 = 0 by omega,
      show 1000 * k / 10 % 10 = 0 by omega, show 1000 * k % 10 = 0 by omega]
    simp
  rw [pad3_of_le (by simp [h]), h]
  rfl

/-- A longer number can absorb the digits that follow a common beginning. -/
theorem pad3_eq_append {i j : Nat} {t : List Byte} (h : pad3 i = t ++ pad3 j) (ht : t ≠ []) :
    ∃ k, 0 < k ∧ t = decimal k ∧ 1000 * k ≤ i := by
  have htpos := List.length_pos_of_ne_nil ht
  have hj := pad3_length j
  have hlen := congrArg List.length h
  rw [List.length_append] at hlen
  have hi : 3 ≤ (decimal i).length := by
    by_contra hlt
    simp only [pad3, List.length_append, List.length_replicate] at hlen hj
    omega
  rw [pad3_of_le hi] at h hlen
  have hpow := pow_le_of_decimal_length (by omega : 0 < (pad3 j).length)
    (by omega : _ < (decimal i).length)
  refine ⟨i / 10 ^ (pad3 j).length, Nat.div_pos hpow (by positivity), decimal_eq_append h ht, ?_⟩
  calc 1000 * (i / 10 ^ (pad3 j).length)
      ≤ 10 ^ (pad3 j).length * (i / 10 ^ (pad3 j).length) :=
        Nat.mul_le_mul_right _ (Nat.pow_le_pow_right (by norm_num) hj : 10 ^ 3 ≤ _)
    _ ≤ i := Nat.mul_div_le i _

/-- Two numbered names agree only with equal stems and numbers, or when one stem
continues the other by a number that the first file number starts with. -/
theorem numbered_eq {s t : List Byte} {i j : Nat} (h : s ++ pad3 i = t ++ pad3 j) :
    (s = t ∧ i = j) ∨ (∃ k, 0 < k ∧ t = s ++ decimal k ∧ 1000 * k ≤ i) ∨
      (∃ k, 0 < k ∧ s = t ++ decimal k ∧ 1000 * k ≤ j) := by
  rcases List.append_eq_append_iff.mp h with ⟨u, rfl, hu⟩ | ⟨u, rfl, hu⟩
  · by_cases hnil : u = []
    · exact .inl ⟨by simp [hnil], pad3_injective (by simpa [hnil] using hu)⟩
    · obtain ⟨k, hk, rfl, hle⟩ := pad3_eq_append hu hnil
      exact .inr (.inl ⟨k, hk, rfl, hle⟩)
  · by_cases hnil : u = []
    · exact .inl ⟨by simp [hnil], (pad3_injective (by simpa [hnil] using hu)).symm⟩
    · obtain ⟨k, hk, rfl, hle⟩ := pad3_eq_append hu hnil
      exact .inr (.inr ⟨k, hk, rfl, hle⟩)

/-! ### The files of a backup -/

/-- The name prefix that an image tool is given. -/
def destfile (revosave : List Byte) (v : Volume) : List Byte :=
  (revosave ++ ascii "/" ++ dnum2pre v.dnum ++ (if v.isdm then [] else decimal v.poff)).take 62

/-- The name of the file of one block. -/
def imageName ( nameprefix : List Byte) (i : Nat) : List Byte := nameprefix ++ pad3 i

/-- Names of different blocks differ; `nb` gives the number of blocks of a volume. -/
def NamesDiffer (revosave : List Byte) (vols : List Volume) (nb : PartInfo → Nat) : Prop :=
  ∀ v ∈ vols, ∀ w ∈ vols, ∀ i < nb v.part, ∀ j < nb w.part,
    imageName (destfile revosave v) i = imageName (destfile revosave w) j → v.part = w.part ∧ i = j

theorem imageName_mul_thousand {s : List Byte} {k : Nat} (hk : 0 < k) :
    imageName s (1000 * k) = imageName (s ++ decimal k) 0 := by
  simp [imageName, decimal_mul_thousand hk]

theorem namesDiffer_iff (revosave : List Byte) (vols : List Volume) (nb : PartInfo → Nat) :
    NamesDiffer revosave vols nb ↔ ∀ v ∈ vols, ∀ w ∈ vols, 0 < nb w.part →
      (v.part ≠ w.part → 0 < nb v.part → destfile revosave v ≠ destfile revosave w) ∧
      ∀ k > 0, destfile revosave w = destfile revosave v ++ decimal k → nb v.part ≤ 1000 * k := by
  constructor
  · intro h v hv w hw hnb
    refine ⟨fun hne hpos heq => hne (h v hv w hw 0 hpos 0 hnb (by rw [heq])).1, fun k hk heq => ?_⟩
    by_contra hlt
    have hname := imageName_mul_thousand (s := destfile revosave v) hk
    rw [← heq] at hname
    have h0 := (h v hv w hw (1000 * k) (by omega) 0 hnb hname).2
    omega
  · intro h v hv w hw i hi j hj heq
    rcases numbered_eq heq with ⟨hs, hij⟩ | ⟨k, hk, hs, hle⟩ | ⟨k, hk, hs, hle⟩
    · refine ⟨?_, hij⟩
      by_contra hne
      exact (h v hv w hw (by omega)).1 hne (by omega) hs
    · have := (h v hv w hw (by omega)).2 k hk hs
      omega
    · have := (h w hw v hv (by omega)).2 k hk hs
      omega

/-! ### Ordinary machines

With at most 176 disks the prefix letters run from `P` up and never meet a digit,
so the condition on the names is one on disk, partition and volume numbers. -/

/-- A saved volume of a machine with at most 176 disks. -/
structure Volume.Ordinary (v : Volume) : Prop extends v.FromEntry where
  disk : v.isdm = false → 128 ≤ v.dnum ∧ v.dnum < 304
  minor : v.isdm = true → 0 ≤ v.part.minor

def Volume.stem (v : Volume) : List Byte := dnum2pre v.dnum ++ (if v.isdm then [] else decimal v.poff)

def diskLetter (dnum : Int) : Byte := UInt8.ofNat (dnum - 48).toNat

theorem diskLetter_toNat {dnum : Int} (h : 128 ≤ dnum ∧ dnum < 304) :
    ((diskLetter dnum).toNat : Int) = dnum - 48 := by
  rw [diskLetter, UInt8.toNat_ofNat']
  omega

theorem dnum2pre_disk {dnum : Int} (h : 128 ≤ dnum ∧ dnum < 304) :
    dnum2pre dnum = [diskLetter dnum] := by
  have hlt : ¬ (0xFFF ≤ dnum) := by omega
  have hc : UInt8.ofNat ((80 + (dnum - 128)) % 256).toNat = diskLetter dnum := by
    rw [diskLetter, show (80 + (dnum - 128)) % 256 = dnum - 48 by omega]
  have hne : diskLetter dnum ≠ 0 := by
    intro h0
    have hn := diskLetter_toNat h
    rw [h0, UInt8.toNat_zero] at hn
    omega
  simp [dnum2pre, hlt, charText, cstr, hc, hne]

theorem Volume.Ordinary.stem_disk {v : Volume} (h : v.Ordinary) (hd : v.isdm = false) :
    v.stem = diskLetter v.dnum :: decimal v.poff := by
  simp [Volume.stem, hd, dnum2pre_disk (h.disk hd)]

theorem Volume.Ordinary.stem_dm {v : Volume} (h : v.Ordinary) (hd : v.isdm = true) :
    v.stem = ascii "Lvm" ++ hex2 true (v.part.minor % 256).toNat := by
  have hge : 0xFFF ≤ v.dnum := by
    have := h.minor hd
    rw [h.dnum hd]
    omega
  simp only [Volume.stem, hd, dnum2pre, hge, if_true, List.append_nil]
  rw [h.dnum hd, show (0x1000 + v.part.minor) % 256 = v.part.minor % 256 by omega]

theorem Volume.Ordinary.poff_lt {v : Volume} (h : v.Ordinary) : v.poff < 16 := by
  rw [h.poff]
  split <;> omega

theorem Volume.Ordinary.stem_length {v : Volume} (h : v.Ordinary) : v.stem.length ≤ 5 := by
  cases hd : v.isdm with
  | false =>
    have hlen := decimal_length_le (by norm_num) (by have := h.poff_lt; omega : v.poff < 10 ^ 2)
    rw [h.stem_disk hd, List.length_cons]
    omega
  | true =>
    rw [h.stem_dm hd, hex2_eq (by omega)]
    exact le_rfl

theorem Volume.Ordinary.destfile_eq {v : Volume} (h : v.Ordinary) {revosave : List Byte}
    (hr : revosave.length ≤ 56) : destfile revosave v = revosave ++ ascii "/" ++ v.stem := by
  have hlen := h.stem_length
  rw [destfile, List.append_assoc _ (dnum2pre v.dnum), List.take_of_length_le]
  · rfl
  · show (revosave ++ ascii "/" ++ v.stem).length ≤ 62
    rw [List.length_append, List.length_append, show (ascii "/").length = 1 from rfl]
    omega

/-- Two volumes have the same files: the same partition number on the same disk, or
logical volumes with the same low minor byte. -/
def SameFiles (v w : Volume) : Prop :=
  if v.isdm then w.isdm = true ∧ v.part.minor % 256 = w.part.minor % 256
  else w.isdm = false ∧ v.dnum = w.dnum ∧ v.poff = w.poff

theorem diskLetter_injective {a b : Int} (ha : 128 ≤ a ∧ a < 304) (hb : 128 ≤ b ∧ b < 304)
    (h : diskLetter a = diskLetter b) : a = b := by
  have h1 := diskLetter_toNat ha
  have h2 := diskLetter_toNat hb
  rw [h] at h1
  omega

/-- The letter of a disk is not the first letter of `Lvm`. -/
theorem diskLetter_ne {dnum : Int} (h : 128 ≤ dnum ∧ dnum < 304) : diskLetter dnum ≠ 76 := by
  intro h0
  have hn := diskLetter_toNat h
  rw [h0] at hn
  simp at hn
  omega

theorem Volume.Ordinary.stem_head {v : Volume} (h : v.Ordinary) :
    v.stem.head? = some (if v.isdm then 76 else diskLetter v.dnum) := by
  cases hd : v.isdm with
  | false => simp [h.stem_disk hd]
  | true =>
    rw [h.stem_dm hd]
    rfl

/-- Volumes whose stems begin alike are of one kind, and disks are the same. -/
theorem Volume.Ordinary.same_kind {v w : Volume} (hv : v.Ordinary) (hw : w.Ordinary)
    (h : v.stem.head? = w.stem.head?) : v.isdm = w.isdm ∧ (v.isdm = false → v.dnum = w.dnum) := by
  rw [hv.stem_head, hw.stem_head, Option.some.injEq] at h
  cases hd : v.isdm with
  | false =>
    cases hd' : w.isdm with
    | false => exact ⟨rfl, fun _ => diskLetter_injective (hv.disk hd) (hw.disk hd')
        (by simpa [hd, hd'] using h)⟩
    | true => exact absurd (by simpa [hd, hd'] using h) (diskLetter_ne (hv.disk hd))
  | true =>
    cases hd' : w.isdm with
    | false => exact absurd (by simpa [hd, hd'] using h.symm) (diskLetter_ne (hw.disk hd'))
    | true => exact ⟨rfl, fun h => by simp at h⟩

theorem stem_eq_iff {v w : Volume} (hv : v.Ordinary) (hw : w.Ordinary) :
    v.stem = w.stem ↔ SameFiles v w := by
  constructor
  · intro h
    obtain ⟨hk, hn⟩ := hv.same_kind hw (by rw [h])
    cases hd : v.isdm with
    | false =>
      rw [hv.stem_disk hd, hw.stem_disk (hk ▸ hd), List.cons.injEq] at h
      simpa [SameFiles, hd, hk ▸ hd, hn hd] using decimal_injective h.2
    | true =>
      rw [hv.stem_dm hd, hw.stem_dm (hk ▸ hd)] at h
      have hx := hex2_injective (by omega) (by omega) (List.append_cancel_left h)
      simp only [SameFiles, hd, if_true]
      exact ⟨hk ▸ hd, by omega⟩
  · intro h
    cases hd : v.isdm with
    | false =>
      obtain ⟨h1, h2, h3⟩ : w.isdm = false ∧ v.dnum = w.dnum ∧ v.poff = w.poff := by
        simpa [SameFiles, hd] using h
      rw [hv.stem_disk hd, hw.stem_disk h1, h2, h3]
    | true =>
      obtain ⟨h1, h2⟩ : w.isdm = true ∧ v.part.minor % 256 = w.part.minor % 256 := by
        simpa [SameFiles, hd] using h
      rw [hv.stem_dm hd, hw.stem_dm h1, h2]

/-- Only a partition from 11 on continues the name of another one, of partition 1. -/
theorem stem_extends_iff {v w : Volume} (hv : v.Ordinary) (hw : w.Ordinary) {k : Nat} (hk : 0 < k) :
    w.stem = v.stem ++ decimal k ↔
      v.isdm = false ∧ w.isdm = false ∧ v.dnum = w.dnum ∧ v.poff = 1 ∧ w.poff = 10 + k := by
  have hp := hw.poff_lt
  have hlist : decimal w.poff = decimal v.poff ++ decimal k ↔ v.poff = 1 ∧ w.poff = 10 + k := by
    constructor
    · intro h
      have hlen := congrArg List.length h
      have h1 := List.length_pos_of_ne_nil (decimal_ne_nil v.poff)
      have h2 := List.length_pos_of_ne_nil (decimal_ne_nil k)
      rw [List.length_append] at hlen
      have hge : 10 ≤ w.poff := by
        by_contra hlt
        rw [decimal_lt_ten (by omega), List.length_singleton] at hlen
        omega
      rw [decimal_ge_ten hge, show w.poff / 10 = 1 by omega, show w.poff % 10 = w.poff - 10 by omega,
        ← decimal_lt_ten (by omega)] at h hlen
      have hone : (decimal 1).length = 1 := rfl
      have hlast : (decimal (w.poff - 10)).length = 1 := by rw [decimal_lt_ten (by omega)]; rfl
      rw [List.length_append] at hlen
      obtain ⟨ha, hb⟩ := List.append_inj h (by omega)
      have := decimal_injective ha
      have := decimal_injective hb
      omega
    · rintro ⟨h1, h2⟩
      rw [decimal_ge_ten (by omega : 10 ≤ w.poff), show w.poff / 10 = 1 by omega,
        show w.poff % 10 = k by omega, h1, ← decimal_lt_ten (by omega : k < 10)]
  constructor
  · intro h
    obtain ⟨hkind, hn⟩ := hv.same_kind hw (by
      rw [h, List.head?_append]
      simp [hv.stem_head])
    cases hd : v.isdm with
    | false =>
      rw [hv.stem_disk hd, hw.stem_disk (hkind ▸ hd), List.cons_append, List.cons.injEq] at h
      obtain ⟨h1, h2⟩ := hlist.mp h.2
      exact ⟨rfl, hkind ▸ hd, hn hd, h1, h2⟩
    | true =>
      have hlen := congrArg List.length h
      have hkpos := List.length_pos_of_ne_nil (decimal_ne_nil k)
      rw [hv.stem_dm hd, hw.stem_dm (hkind ▸ hd), hex2_eq (by omega), hex2_eq (by omega)] at hlen
      simp only [List.length_append, List.length_cons, List.length_nil] at hlen
      omega
  · rintro ⟨h1, h2, h3, h4, h5⟩
    rw [hv.stem_disk h1, hw.stem_disk h2, h3, List.cons_append, hlist.mpr ⟨h4, h5⟩]

theorem namesDiffer_ordinary_iff {revosave : List Byte} {vols : List Volume} (nb : PartInfo → Nat)
    (hr : revosave.length ≤ 56) (hord : ∀ v ∈ vols, v.Ordinary) :
    NamesDiffer revosave vols nb ↔ ∀ v ∈ vols, ∀ w ∈ vols, 0 < nb w.part →
      (v.part ≠ w.part → 0 < nb v.part → ¬ SameFiles v w) ∧
      (v.isdm = false → w.isdm = false → v.dnum = w.dnum → v.poff = 1 → 10 < w.poff →
        nb v.part ≤ 1000 * (w.poff - 10)) := by
  rw [namesDiffer_iff]
  refine forall₂_congr fun v hv => forall₂_congr fun w hw => imp_congr_right fun _ => ?_
  have hstem := stem_eq_iff (hord v hv) (hord w hw)
  rw [(hord v hv).destfile_eq hr, (hord w hw).destfile_eq hr]
  simp only [ne_eq, List.append_right_inj, hstem]
  refine and_congr_right fun _ => ⟨fun h h1 h2 h3 h4 h5 => ?_, fun h k hk hext => ?_⟩
  · apply h _ (by omega)
    rw [List.append_assoc _ v.stem, List.append_right_inj,
      stem_extends_iff (hord v hv) (hord w hw) (by omega)]
    exact ⟨h1, h2, h3, h4, by omega⟩
  · rw [List.append_assoc _ v.stem, List.append_right_inj,
      stem_extends_iff (hord v hv) (hord w hw) hk] at hext
    obtain ⟨h1, h2, h3, h4, h5⟩ := hext
    have := h h1 h2 h3 h4 (by omega)
    rwa [show k = w.poff - 10 by omega]

/-! ### A whole backup -/

/-- The names of a whole backup: volumes with equal prefixes, or with a prefix that
goes on with the block number of another volume, are all that can go wrong. -/
theorem image_names_differ (m : Machine) (o : SaveOptions) (nb : PartInfo → Nat) :
    NamesDiffer o.revosave (save m o).saved nb ↔
      ∀ v ∈ (save m o).saved, ∀ w ∈ (save m o).saved, 0 < nb w.part →
        (v.part ≠ w.part → 0 < nb v.part → destfile o.revosave v ≠ destfile o.revosave w) ∧
        ∀ k > 0, destfile o.revosave w = destfile o.revosave v ++ decimal k → nb v.part ≤ 1000 * k :=
  namesDiffer_iff o.revosave (save m o).saved nb

/-- The same with disks, partitions and volumes in place of the texts, for a backup
of at most 176 disks into a directory with a short name. -/
theorem image_names_differ_ordinary (m : Machine) (o : SaveOptions) (nb : PartInfo → Nat)
    (hr : o.revosave.length ≤ 56)
    (hdisk : ∀ v ∈ (save m o).saved, v.isdm = false → 128 ≤ v.dnum ∧ v.dnum < 304)
    (hminor : ∀ v ∈ (save m o).saved, v.isdm = true → 0 ≤ v.part.minor) :
    NamesDiffer o.revosave (save m o).saved nb ↔
      ∀ v ∈ (save m o).saved, ∀ w ∈ (save m o).saved, 0 < nb w.part →
        (v.part ≠ w.part → 0 < nb v.part → ¬ SameFiles v w) ∧
        (v.isdm = false → w.isdm = false → v.dnum = w.dnum → v.poff = 1 → 10 < w.poff →
          nb v.part ≤ 1000 * (w.poff - 10)) :=
  namesDiffer_ordinary_iff nb hr fun v hv => ⟨(saved_fromEntry m o v hv).2, hdisk v hv, hminor v hv⟩

/-- A disk with a first and an eleventh partition. -/
def elevenParts : Machine where
  partitions := ascii "major minor  #blocks  name\n\n   8        0  200000000 sda\n" ++
    ascii "   8        1   88152064 sda1\n   8       11      50000 sda11\n"
  mapperDir := none
  lstat := fun _ => none
  openDev := fun path =>
    if path = ascii "/dev/sda" then some ⟨some 0, 400000000, none⟩
    else if path = ascii "/dev/sda1" then some ⟨some 2048, 176304128, none⟩
    else if path = ascii "/dev/sda11" then some ⟨some 200000000, 100000, none⟩
    else none
  sfdisk := fun _ _ => 0x83
  probe := fun t _ => t == .e2fs

def sda1 : Volume := ⟨⟨ascii "sda1", 8, 1⟩, 128, 1, false, 2048, 176306175, 0x83⟩
def sda11 : Volume := ⟨⟨ascii "sda11", 8, 11⟩, 128, 11, false, 200000000, 200099999, 0x83⟩

theorem elevenParts_saved : (save elevenParts plainSave).saved = [sda1, sda11] := by decide +kernel

/-- Block 1000 of the first partition goes into the file of block 0 of the eleventh. -/
theorem image_names_clash : ¬ NamesDiffer plainSave.revosave (save elevenParts plainSave).saved
    (fun p => if p = sda1.part then 1001 else 1) := by
  intro h
  rw [elevenParts_saved] at h
  have hname : imageName (destfile plainSave.revosave sda1) 1000 =
      imageName (destfile plainSave.revosave sda11) 0 := by decide +kernel
  have h0 := (h sda1 (by decide) sda11 (by decide) 1000 (by decide) 0 (by decide) hname).2
  omega

end PulseImaging
