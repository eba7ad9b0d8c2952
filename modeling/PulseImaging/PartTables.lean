import PulseImaging.TrackBuffer

/-! The copies of partition tables: 516-byte records of a sector number and a
sector, written by autosave and replayed by autorestore and by the bootloader. -/

namespace PulseImaging

/-! ### Texts cut into pieces of equal length -/

/-- The `k`-th piece of length `n`. -/
def piece {α : Type*} (n : Nat) (xs : List α) (k : Nat) : List α := (xs.drop (n * k)).take n

theorem piece_length_le {α : Type*} (n : Nat) (xs : List α) (k : Nat) :
    (piece n xs k).length ≤ n := by
  simp [piece]

theorem piece_flatten {α : Type*} {n : Nat} {xss : List (List α)} (h : ∀ xs ∈ xss, xs.length = n)
    (k : Nat) :
    piece n xss.flatten k = xss.getD k [] := by
  induction xss generalizing k with
  | nil => simp [piece]
  | cons xs xss ih =>
    have hxs := h xs (by simp)
    cases k with
    | zero => simp [piece, hxs]
    | succ k =>
      have hi := ih (fun ys hys => h ys (by simp [hys])) k
      rw [List.getD_cons_succ, ← hi, piece, piece, List.flatten_cons, List.drop_append, hxs,
        List.drop_eq_nil_of_le (by rw [hxs]; exact Nat.le_mul_of_pos_right n k.succ_pos),
        List.nil_append, Nat.mul_succ, Nat.add_sub_cancel]

/-! ### Saving -/

/-- A 32-bit word in the byte order of the machine. -/
def word32 (n : Nat) : List Byte :=
  [UInt8.ofNat n, UInt8.ofNat (n / 2 ^ 8), UInt8.ofNat (n / 2 ^ 16), UInt8.ofNat (n / 2 ^ 24)]

def word32Value (bytes : List Byte) : Nat := bytes.foldr (fun b n => b.toNat + 2 ^ 8 * n) 0

theorem word32Value_word32 {n : Nat} (h : n < 2 ^ 32) : word32Value (word32 n) = n := by
  simp only [word32Value, word32, List.foldr_cons, List.foldr_nil, UInt8.toNat_ofNat']
  omega

/-- What `save_raw` appends for a sector. -/
def rawRecord (source : Content) (s : Nat) : List Byte := word32 s ++ slice source (512 * s) 512

theorem rawRecord_length (source : Content) (s : Nat) : (rawRecord source s).length = 516 := by
  simp [rawRecord, word32]

/-- The loop over a `__u32` counter, which comes back to zero. -/
def saveRawLoop (source : Content) (stop : Nat) : Nat → Nat → List Byte → Option (List Byte)
  | 0, _, _ => none
  | fuel + 1, s, file =>
    if s ≤ stop then saveRawLoop source stop fuel ((s + 1) % 2 ^ 32) (file ++ rawRecord source s) else some file

/-- A loop that ends has at most `2 ^ 32` turns. -/
def saveRaw (source : Content) (start stop : Nat) (file : List Byte) : Option (List Byte) :=
  saveRawLoop source stop (2 ^ 32 + 1) start file

/-- Successive calls on one file. -/
def saveRaws (source : Content) (ranges : List (Nat × Nat)) : Option (List Byte) :=
  ranges.foldlM (fun file r => saveRaw source r.1 r.2 file) []

/-- The sectors in the order in which they are saved. -/
def recorded (ranges : List (Nat × Nat)) : List Nat := ranges.flatMap (fun r => List.range' r.1 (r.2 + 1 - r.1))

def InRanges (ranges : List (Nat × Nat)) (s : Nat) : Prop := ∃ r ∈ ranges, r.1 ≤ s ∧ s ≤ r.2

theorem mem_recorded_iff {ranges : List (Nat × Nat)} {s : Nat} :
    s ∈ recorded ranges ↔ InRanges ranges s := by
  simp only [recorded, InRanges, List.mem_flatMap, List.mem_range'_1]
  exact exists_congr fun r => and_congr_right fun _ => by omega

theorem saveRawLoop_eq (source : Content) {stop fuel s : Nat} (file : List Byte)
    (hstop : stop < 2 ^ 32 - 1) (hs : s ≤ stop + 1) (hfuel : stop + 1 < s + fuel) :
    saveRawLoop source stop fuel s file =
      some (file ++ (List.range' s (stop + 1 - s)).flatMap (rawRecord source)) := by
  induction fuel generalizing s file with
  | zero => omega
  | succ fuel ih =>
    rw [saveRawLoop]
    split
    · rw [Nat.mod_eq_of_lt (by omega), ih _ (by omega) (by omega),
        show stop + 1 - s = (stop + 1 - (s + 1)) + 1 by omega, List.range'_succ, List.flatMap_cons,
        List.append_assoc]
    · rw [show stop + 1 - s = 0 by omega]
      simp

theorem saveRaws_eq (source : Content) {ranges : List (Nat × Nat)}
    (h : ∀ r ∈ ranges, r.1 ≤ r.2 ∧ r.2 < 2 ^ 32 - 1) :
    saveRaws source ranges = some ((recorded ranges).flatMap (rawRecord source)) := by
  have hfold : ∀ file, ranges.foldlM (fun file r => saveRaw source r.1 r.2 file) file =
      some (file ++ (recorded ranges).flatMap (rawRecord source)) := by
    induction ranges with
    | nil => simp [recorded]
    | cons r ranges ih =>
      intro file
      obtain ⟨hle, hlt⟩ := h r (by simp)
      have hi := ih (fun r' hr' => h r' (by simp [hr']))
      have hsave : saveRaw source r.1 r.2 file =
          some (file ++ (List.range' r.1 (r.2 + 1 - r.1)).flatMap (rawRecord source)) :=
        saveRawLoop_eq source file hlt (by omega) (by omega)
      rw [List.foldlM_cons, hsave]
      simp only [Option.bind_eq_bind, Option.bind_some, hi, recorded, List.flatMap_cons,
        List.flatMap_append, List.append_assoc]
  exact hfold []

/-! ### Replaying in autorestore -/

/-- What successive `read`s of 516 bytes deliver: nothing at the end of the file, and
no data at all when they fail. -/
structure RawInput where
  reads : Nat → Option (List Byte)
  le : ∀ n data, reads n = some data → data.length ≤ 516

/-- One `write` of `restore_raw`, with the number of the read before it. -/
structure RawWrite where
  turn : Nat
  sect : Nat
  data : List Byte
  deriving DecidableEq, Repr

def rawWrite (turn : Nat) (buffer : List Byte) : RawWrite :=
  ⟨turn, word32Value (buffer.take 4), (buffer.drop 4).take 512⟩

/-- The buffer after a read. -/
def readInto (buffer : List Byte) (r : Option (List Byte)) : List Byte :=
  r.getD [] ++ buffer.drop (r.getD []).length

/-- The loop of `restore_raw`: any answer of `read` but zero is followed by a write. -/
def restoreRawLoop (input : RawInput) : Nat → Nat → List Byte → Option (List RawWrite)
  | 0, _, _ => none
  | fuel + 1, n, buffer =>
    if input.reads n = some [] then some []
    else
      let buffer := readInto buffer (input.reads n)
      (restoreRawLoop input fuel (n + 1) buffer).map (rawWrite n buffer :: ·)

/-- The writes of `restore_raw`; `junk` is the buffer before the first read. -/
def restoreRaw (input : RawInput) (junk : List Byte) (fuel : Nat) : Option (List RawWrite) :=
  restoreRawLoop input fuel 0 junk

/-- The buffer before the read `n`. -/
def bufferAt (input : RawInput) (junk : List Byte) (n : Nat) : List Byte :=
  (List.range n).foldl (fun buffer k => readInto buffer (input.reads k)) junk

theorem bufferAt_succ (input : RawInput) (junk : List Byte) (n : Nat) :
    bufferAt input junk (n + 1) = readInto (bufferAt input junk n) (input.reads n) := by
  simp [bufferAt, List.range_succ]

/-- The input ends at the read `n`. -/
def RawInput.EndsAt (input : RawInput) (n : Nat) : Prop :=
  input.reads n = some [] ∧ ∀ k < n, input.reads k ≠ some []

theorem restoreRawLoop_of_end {input : RawInput} {n : Nat} (hend : input.EndsAt n)
    (junk : List Byte) {k fuel : Nat} (hk : k ≤ n) (hfuel : n < k + fuel) :
    restoreRawLoop input fuel k (bufferAt input junk k) =
      some ((List.range' k (n - k)).map (fun i => rawWrite i (bufferAt input junk (i + 1)))) := by
  induction fuel generalizing k with
  | zero => omega
  | succ fuel ih =>
    rw [restoreRawLoop]
    by_cases hkn : k = n
    · rw [hkn, if_pos hend.1]
      simp
    · rw [if_neg (hend.2 k (by omega))]
      dsimp only
      rw [← bufferAt_succ, ih (by omega) (by omega), show n - k = (n - (k + 1)) + 1 by omega,
        List.range'_succ]
      rfl

theorem restoreRaw_of_end {input : RawInput} {n fuel : Nat} (hend : input.EndsAt n) (junk : List Byte)
    (hfuel : n < fuel) :
    restoreRaw input junk fuel =
      some ((List.range n).map (fun i => rawWrite i (bufferAt input junk (i + 1)))) := by
  have h := restoreRawLoop_of_end hend junk (Nat.zero_le n) (by omega : n < 0 + fuel)
  rwa [Nat.sub_zero, ← List.range_eq_range'] at h

theorem restoreRawLoop_end {input : RawInput} {fuel k : Nat} {buffer : List Byte} {ws : List RawWrite}
    (h : restoreRawLoop input fuel k buffer = some ws) : ∃ n < k + fuel, input.reads n = some [] := by
  induction fuel generalizing k buffer ws with
  | zero => simp [restoreRawLoop] at h
  | succ fuel ih =>
    rw [restoreRawLoop] at h
    split at h
    · exact ⟨k, by omega, ‹_›⟩
    · obtain ⟨ws', hws', -⟩ := Option.map_eq_some_iff.mp h
      obtain ⟨n, hn, hend⟩ := ih hws'
      exact ⟨n, by omega, hend⟩

theorem RawInput.exists_endsAt {input : RawInput} {m : Nat} (h : input.reads m = some []) :
    ∃ n ≤ m, input.EndsAt n := by
  have hex : ∃ n, input.reads n = some [] := ⟨m, h⟩
  exact ⟨Nat.find hex, Nat.find_min' hex h, Nat.find_spec hex, fun k hk => Nat.find_min hex hk⟩

/-- `restore_raw` ends exactly if some read meets the end of the file. -/
theorem restoreRaw_eq_some_iff {input : RawInput} {junk : List Byte} {ws : List RawWrite} :
    (∃ fuel, restoreRaw input junk fuel = some ws) ↔
      ∃ n, input.EndsAt n ∧ ws = (List.range n).map
        (fun i => rawWrite i (bufferAt input junk (i + 1))) := by
  constructor
  · rintro ⟨fuel, h⟩
    obtain ⟨m, hm, hread⟩ := restoreRawLoop_end h
    obtain ⟨n, hn, hend⟩ := RawInput.exists_endsAt hread
    exact ⟨n, hend, Option.some.inj (h.symm.trans (restoreRaw_of_end hend junk (by omega)))⟩
  · rintro ⟨n, hend, rfl⟩
    exact ⟨n + 1, restoreRaw_of_end hend junk (Nat.lt_succ_self n)⟩

def copySectors (source : Content) (ss : List Nat) (c : Content) : Content :=
  ss.foldl (fun c s => patch c (512 * s) (slice source (512 * s) 512)) c

theorem slice_copySectors (source : Content) (ss : List Nat) (c : Content) (j : Nat) :
    slice (copySectors source ss c) (512 * j) 512 =
      if j ∈ ss then slice source (512 * j) 512 else slice c (512 * j) 512 := by
  induction ss generalizing c with
  | nil => simp [copySectors]
  | cons s ss ih =>
    have hi := ih (patch c (512 * s) (slice source (512 * s) 512))
    rw [patch_sector c s j (slice_length _ _ _)] at hi
    rw [show copySectors source (s :: ss) c =
      copySectors source ss (patch c (512 * s) (slice source (512 * s) 512)) from rfl, hi]
    by_cases hj : j = s
    · simp [hj]
    · simp [hj]

/-- The target after the writes; the offset is a 64-bit number. -/
def replayWrites (ws : List RawWrite) (target : Content) : Content :=
  ws.foldl (fun c w => patch c (512 * w.sect % 2 ^ 64) w.data) target

theorem rawWrite_rawRecord (source : Content) (n : Nat) {s : Nat} (h : s < 2 ^ 32) :
    rawWrite n (rawRecord source s) = ⟨n, s, slice source (512 * s) 512⟩ := by
  have hword : (word32 s).length = 4 := rfl
  simp [rawWrite, rawRecord, hword, word32Value_word32 h]

/-! ### Damaged files -/

/-- A complete record delivered by the read `n`. -/
def RawInput.record (input : RawInput) (n : Nat) : Option (List Byte) :=
  (input.reads n).filter (fun data => data.length = 516)

/-- The pairs written are those of the complete records that were read, and every
write follows the read of such a record. -/
def WritesRecords (input : RawInput) (junk : List Byte) : Prop :=
  ∃ fuel ws, restoreRaw input junk fuel = some ws ∧
    (∀ sect data, (∃ w ∈ ws, w.sect = sect ∧ w.data = data) ↔
      ∃ n < ws.length, ∃ rec, input.record n = some rec ∧
        (rawWrite n rec).sect = sect ∧ (rawWrite n rec).data = data) ∧
    ∀ w ∈ ws, ∃ rec, input.record w.turn = some rec ∧ w = rawWrite w.turn rec

theorem rawWrite_readInto (n : Nat) (buffer : List Byte) {rec : List Byte} (h : rec.length = 516) :
    rawWrite n (readInto buffer (some rec)) = rawWrite n rec := by
  simp [rawWrite, readInto, List.take_append, List.drop_append, h]

theorem rawWrite_complete {input : RawInput} {n : Nat} {rec : List Byte} (junk : List Byte)
    (h : input.record n = some rec) : rawWrite n (bufferAt input junk (n + 1)) = rawWrite n rec := by
  obtain ⟨hread, hlen⟩ := Option.filter_eq_some_iff.mp h
  rw [bufferAt_succ, hread, rawWrite_readInto n _ (by simpa using hlen)]

/-- Every turn writes, so that no read before the end may be incomplete. -/
theorem WritesRecords.complete {input : RawInput} {junk : List Byte}
    (h : WritesRecords input junk) :
    ∃ n, input.reads n = some [] ∧ ∀ k < n, ∃ data, input.reads k = some data ∧
      data.length = 516 := by
  obtain ⟨fuel, ws, hrun, -, hturns⟩ := h
  obtain ⟨n, hend, rfl⟩ := restoreRaw_eq_some_iff.mp ⟨fuel, hrun⟩
  refine ⟨n, hend.1, fun k hk => ?_⟩
  obtain ⟨rec, hrec, -⟩ := hturns _ (List.mem_map.mpr ⟨k, List.mem_range.mpr hk, rfl⟩)
  obtain ⟨hread, hlen⟩ := Option.filter_eq_some_iff.mp hrec
  exact ⟨rec, hread, by simpa using hlen⟩

/-- `restore_raw` does what it should exactly if all reads up to the end of the file
deliver complete records. -/
theorem writes_records_iff (input : RawInput) (junk : List Byte) :
    WritesRecords input junk ↔
      ∃ n, input.reads n = some [] ∧ ∀ k < n, ∃ data, input.reads k = some data ∧ data.length = 516 := by
  constructor
  · exact WritesRecords.complete
  · rintro ⟨n, hend, hall⟩
    have hrec : ∀ k < n, ∃ rec, input.record k = some rec := by
      intro k hk
      obtain ⟨data, hread, hlen⟩ := hall k hk
      exact ⟨data, Option.filter_eq_some_iff.mpr ⟨hread, by simpa using hlen⟩⟩
    have hends : input.EndsAt n := by
      refine ⟨hend, fun k hk hnil => ?_⟩
      obtain ⟨data, hread, hlen⟩ := hall k hk
      rw [hnil] at hread
      simp [← Option.some.inj hread] at hlen
    obtain ⟨fuel, hrun⟩ := restoreRaw_eq_some_iff.mpr ⟨n, hends, rfl⟩
    refine ⟨fuel, _, hrun, fun sect data => ?_, fun w hw => ?_⟩
    · rw [List.length_map, List.length_range]
      constructor
      · rintro ⟨w, hw, hpair⟩
        obtain ⟨k, hk, rfl⟩ := List.mem_map.mp hw
        obtain ⟨rec, h⟩ := hrec k (List.mem_range.mp hk)
        rw [rawWrite_complete junk h] at hpair
        exact ⟨k, List.mem_range.mp hk, rec, h, hpair⟩
      · rintro ⟨k, hk, rec, h, hpair⟩
        exact ⟨_, List.mem_map.mpr ⟨k, List.mem_range.mpr hk, rfl⟩, by rwa [rawWrite_complete junk h]⟩
    · obtain ⟨k, hk, rfl⟩ := List.mem_map.mp hw
      obtain ⟨rec, h⟩ := hrec k (List.mem_range.mp hk)
      exact ⟨rec, h, rawWrite_complete junk h⟩

/-- The reads of a regular file. -/
def fileInput (file : List Byte) : RawInput where
  reads n := some (piece 516 file n)
  le n data h := by
    rw [← Option.some.inj h]
    exact piece_length_le 516 file n

/-- The file cannot be opened. -/
def missingFile : RawInput := ⟨fun _ => none, fun _ _ h => by simp at h⟩

/-- A missing file keeps `restore_raw` writing for ever, and four bytes after the last
record put the sector of that record in a second place. -/
theorem raw_restore_damaged :
    ¬ WritesRecords missingFile [] ∧
    ¬ WritesRecords (fileInput (word32 0 ++ List.replicate 512 7 ++ word32 1)) [] := by
  constructor
  · intro h
    obtain ⟨n, hn, -⟩ := h.complete
    simp [missingFile] at hn
  · intro h
    obtain ⟨n, hn, hall⟩ := h.complete
    have h0 : (fileInput (word32 0 ++ List.replicate 512 7 ++ word32 1)).reads 0 ≠ some [] := by
      decide +kernel
    have h1 : (fileInput (word32 0 ++ List.replicate 512 7 ++ word32 1)).reads 1 =
      some (word32 1) := by decide +kernel
    by_cases hn2 : n < 2
    · obtain rfl | rfl : n = 0 ∨ n = 1 := by omega
      · exact h0 hn
      · rw [h1] at hn
        exact absurd (Option.some.inj hn) (by decide)
    · obtain ⟨data, hread, hlen⟩ := hall 1 (by omega)
      rw [h1] at hread
      rw [← Option.some.inj hread] at hlen
      exact absurd hlen (by decide)

/-! ### Replaying in the bootloader -/

/-- The BIOS finds every sector of a drive of `size` sectors, and a call that it refuses leaves the drive
as it is. -/
structure Int13.Serves (B : Int13) (d : Drive) (drive size : Nat) : Prop where
  extended : ∀ n block, B.extendedErr n drive block 1 = 0 ↔ d.extended.isSome = true ∧ block < size
  standard : ∀ n cylinder head sector, B.standardErr n drive (cylinder, head, sector) 1 = 0 ↔
    ∃ i, d.translation drive = some i ∧ cylinder < i.cylinders ∧ head < i.heads ∧ sector ≤ i.sectors
  refused : ∀ n old new, B.torn n old new = old

namespace DiskIo

/-- A division of `biosdisk` has no result. -/
def Faults (s : DiskIo) : Prop :=
  s.buf_geom.lba = false ∧ (s.buf_geom.sectors = 0 ∨ s.buf_geom.heads = 0)

instance (s : DiskIo) : Decidable s.Faults := inferInstanceAs (Decidable (_ ∧ _))

end DiskIo

/-- The loop of `ptabs_func`; `reads` are the successive results of `grub_read`. The geometry is that of the last
drive that was probed, whichever it was. -/
def ptabsLoop (B : Int13) (save_drive : Nat) (reads : Nat → List Byte) :
    Nat → Nat → List Byte → DiskIo → Option (Bool × DiskIo)
  | 0, _, _, _ => none
  | fuel + 1, n, buf, s =>
    if reads n = [] then some (true, s)
    else
      let buf := readInto buf (some (reads n))
      let w := rawWrite n buf
      let s := s.withTrack none
      if s.Faults then none
      else
        let r := s.biosdisk B (.write w.data) save_drive w.sect 1
        if r.1 = 0 then ptabsLoop B save_drive reads fuel (n + 1) buf r.2 else some (false, r.2.raise .write)

def ptabsFunc (B : Int13) (save_drive : Nat) (reads : Nat → List Byte) (junk : List Byte) (fuel : Nat) (s : DiskIo) :
    Option (Bool × DiskIo) :=
  ptabsLoop B save_drive reads fuel 0 junk s

/-- With the geometry `g` in memory `biosdisk` writes the sector where it belongs: by its number, or by a
cylinder, head and sector that are those of the drive. -/
def Geometry.Finds (g : Geometry) (d : Drive) (drive size sector : Nat) : Prop :=
  if g.lba then d.extended.isSome = true ∧ sector < 2 ^ 31 ∧ sector < size
  else 0 < g.sectors ∧ 0 < g.heads ∧ ∃ i, d.translation drive = some i ∧
    sector % g.sectors = sector % i.sectors ∧ sector / g.sectors % g.heads = sector / i.sectors % i.heads ∧
      sector / g.sectors / g.heads = sector / i.sectors / i.heads ∧
        sector / g.sectors / g.heads < min g.cylinders i.cylinders

theorem Geometry.Finds.no_fault {g : Geometry} {d : Drive} {drive size sector : Nat}
    (h : g.Finds d drive size sector) : ¬ (g.lba = false ∧ (g.sectors = 0 ∨ g.heads = 0)) := by
  rintro ⟨hlba, hzero⟩
  rw [Finds, hlba, if_neg Bool.false_ne_true] at h
  have hsectors := h.1
  have hheads := h.2.1
  omega

/-- The block that `biosdisk` writes for a sector. -/
def Geometry.block (g : Geometry) (d : Drive) (drive size sector : Nat) : Option Nat :=
  if g.lba then if d.extended.isSome = true ∧ dapBlock sector < size then some (dapBlock sector) else none
  else (d.translation drive).bind fun i =>
    let cylinder := sector / g.sectors / g.heads
    let head := sector / g.sectors % g.heads
    if cylinder < g.cylinders ∧ cylinder < i.cylinders ∧ head < i.heads ∧ sector % g.sectors < i.sectors then
      some ((cylinder * i.heads + head) * i.sectors + sector % g.sectors)
    else none

/-- The parts of a sector number determine it. -/
theorem chs_eq_iff {sector cylinder head offset heads sectors : Nat} (hhead : head < heads)
    (hoffset : offset < sectors) :
    (cylinder * heads + head) * sectors + offset = sector ↔
      offset = sector % sectors ∧ head = sector / sectors % heads ∧
        cylinder = sector / sectors / heads := by
  constructor
  · rintro rfl
    have hdiv : ((cylinder * heads + head) * sectors + offset) / sectors =
        cylinder * heads + head := by
      rw [Nat.mul_comm, Nat.mul_add_div (by omega), Nat.div_eq_of_lt hoffset, Nat.add_zero]
    rw [hdiv, Nat.mul_add_mod', Nat.mul_add_mod', Nat.mod_eq_of_lt hoffset, Nat.mod_eq_of_lt hhead,
      Nat.mul_comm cylinder, Nat.mul_add_div (by omega), Nat.div_eq_of_lt hhead, Nat.add_zero]
    exact ⟨rfl, rfl, rfl⟩
  · rintro ⟨rfl, rfl, rfl⟩
    exact chs_sector sector

theorem Geometry.block_eq_iff {g : Geometry} {d : Drive} {drive size sector : Nat}
    (hg : ¬ (g.lba = false ∧ (g.sectors = 0 ∨ g.heads = 0))) :
    g.block d drive size sector = some sector ↔ g.Finds d drive size sector := by
  rw [block, Finds]
  split_ifs with hlba hext
  · rw [Option.some.injEq, dapBlock_eq_iff]
    refine ⟨fun h => ⟨hext.1, h, ?_⟩, fun h => h.2.1⟩
    rw [← dapBlock_eq_iff.mpr h]
    exact hext.2
  · refine ⟨fun h => (nomatch h), fun h => absurd ⟨h.1, ?_⟩ hext⟩
    rw [dapBlock_eq_iff.mpr h.2.1]
    exact h.2.2
  · have hpos : 0 < g.sectors ∧ 0 < g.heads := by
      have hfault := not_or.mp fun h => hg ⟨by simpa using hlba, h⟩
      exact ⟨Nat.pos_of_ne_zero hfault.1, Nat.pos_of_ne_zero hfault.2⟩
    simp only [hpos.1, hpos.2, true_and, Option.bind_eq_some_iff]
    refine exists_congr fun i => and_congr_right fun _ => ?_
    have hi := i.sectors_pos
    have hh := i.heads_pos
    constructor
    · intro h
      split_ifs at h with hin
      obtain ⟨hoff, hhead, hcyl⟩ := (chs_eq_iff hin.2.2.1 hin.2.2.2).mp (Option.some.inj h)
      exact ⟨hoff, hhead, hcyl, lt_min hin.1 hin.2.1⟩
    · rintro ⟨hoff, hhead, hcyl, hlt⟩
      have hin : sector / g.sectors / g.heads < g.cylinders ∧
          sector / g.sectors / g.heads < i.cylinders ∧
          sector / g.sectors % g.heads < i.heads ∧ sector % g.sectors < i.sectors :=
        ⟨(lt_min_iff.mp hlt).1, (lt_min_iff.mp hlt).2, hhead ▸ Nat.mod_lt _ hh,
          hoff ▸ Nat.mod_lt _ hi⟩
      rw [if_pos hin, Option.some.injEq]
      exact (chs_eq_iff hin.2.2.1 hin.2.2.2).mpr ⟨hoff, hhead, hcyl⟩

/-- What a write of a sector does to the drives: the block `target` is new, or nothing. -/
structure Wrote (s : DiskIo) (drive : Nat) (target : Option Nat) (data : List Byte) (r : Nat × DiskIo) : Prop where
  geom : r.2.buf_geom = s.buf_geom
  answer : r.1 = 0 ↔ target.isSome = true
  drives : r.2.drives = match target with
    | none => s.drives
    | some block => (s.withContent drive (patch (s.drives drive).content (512 * block) data)).drives

theorem patch_slice (c : Content) (pos n : Nat) : patch c pos (slice c pos n) = c := by
  funext i
  rw [patch, slice_length]
  split_ifs with h
  · rw [List.getD_eq_getElem?_getD, slice_getElem? (by omega), Option.getD_some,
      Nat.add_sub_cancel' h.1]
  · rfl

namespace DiskIo

variable {B : Int13} {s : DiskIo} {drive size : Nat}

theorem withContent_self (s : DiskIo) (n drive : Nat) :
    ({ s with calls := n }.withContent drive (s.drives drive).content).drives = s.drives := by
  simp only [withContent, Function.update_eq_self]

theorem wrote_moved (s : DiskIo) (drive block : Nat) {data : List Byte} (hdata : data.length = 512) :
    Wrote s drive (some block) data (0, s.moved drive block 1 (.write data)) where
  geom := rfl
  answer := by simp
  drives := by simp only [moved, Nat.mul_one, List.take_of_length_le hdata.le, withContent]

theorem wrote_failed (hB : B.Serves (s.drives drive) drive size) (block : Nat) {data : List Byte}
    {e : Nat} (he : e ≠ 0) :
    Wrote s drive none data (e, s.failed B drive block 1 (.write data)) where
  geom := rfl
  answer := by simpa using he
  drives := by
    simp only [failed, hB.refused, patch_slice]
    exact withContent_self s _ drive

/-- A write of `ptabs_func` reaches the block that the geometry in memory gives, or none. -/
theorem biosdisk_wrote (hB : B.Serves (s.drives drive) drive size) {data : List Byte}
    (hdata : data.length = 512) (sector : Nat) :
    Wrote s drive (s.buf_geom.block (s.drives drive) drive size sector) data
      (s.biosdisk B (.write data) drive sector 1) := by
  rw [biosdisk, Geometry.block]
  by_cases hlba : s.buf_geom.lba = true
  · simp only [if_pos hlba, hB.extended]
    split_ifs with hext
    · exact wrote_moved s drive _ hdata
    · exact wrote_failed hB _ (mt (hB.extended _ _).mp hext)
  · simp only [if_neg hlba, biosdiskStandard, hB.standard, Nat.succ_le_iff, Drive.blockOf,
      Nat.add_sub_cancel]
    cases htrans : (s.drives drive).translation drive with
    | none =>
      simp only [reduceCtorEq, false_and, exists_false, if_false, Option.bind_none]
      split_ifs
      · exact ⟨rfl, by simp [BIOSDISK_ERROR_GEOMETRY], rfl⟩
      · refine wrote_failed hB _ fun h => ?_
        obtain ⟨i, hi, -⟩ := (hB.standard _ _ _ _).mp h
        exact nomatch htrans.symm.trans hi
    | some i =>
      simp only [Option.some.injEq, exists_eq_left', Option.bind_some]
      by_cases hcyl : s.buf_geom.cylinders ≤ sector / s.buf_geom.sectors / s.buf_geom.heads
      · rw [if_pos hcyl, if_neg (fun h => absurd h.1 (not_lt.mpr hcyl))]
        exact ⟨rfl, by simp [BIOSDISK_ERROR_GEOMETRY], rfl⟩
      · rw [if_neg hcyl]
        simp only [not_le.mp hcyl, true_and]
        split_ifs with hin
        · exact wrote_moved s drive _ hdata
        · refine wrote_failed hB _ fun h => hin ?_
          obtain ⟨j, hj, hrest⟩ := (hB.standard _ _ _ _).mp h
          obtain rfl := Option.some.inj (htrans.symm.trans hj)
          exact hrest

/-- What the writes of a sector to `drive` leave as it is. -/
structure SameDrive (s t : DiskIo) (drive : Nat) : Prop where
  geom : t.buf_geom = s.buf_geom
  translation : (t.drives drive).translation drive = (s.drives drive).translation drive
  extended : (t.drives drive).extended = (s.drives drive).extended

theorem SameDrive.trans {s t u : DiskIo} (h : s.SameDrive t drive) (h' : t.SameDrive u drive) :
    s.SameDrive u drive where
  geom := h'.geom.trans h.geom
  translation := h'.translation.trans h.translation
  extended := h'.extended.trans h.extended

theorem SameDrive.serves {s t : DiskIo} (h : s.SameDrive t drive)
    (hB : B.Serves (s.drives drive) drive size) :
    B.Serves (t.drives drive) drive size where
  extended := by rw [h.extended]; exact hB.extended
  standard := by rw [h.translation]; exact hB.standard
  refused := hB.refused

theorem SameDrive.block {s t : DiskIo} (h : s.SameDrive t drive) (size sector : Nat) :
    t.buf_geom.block (t.drives drive) drive size sector =
      s.buf_geom.block (s.drives drive) drive size sector := by
  rw [Geometry.block, Geometry.block, h.geom, h.translation, h.extended]

theorem SameDrive.finds {s t : DiskIo} (h : s.SameDrive t drive) {sector : Nat} :
    t.buf_geom.Finds (t.drives drive) drive size sector ↔
      s.buf_geom.Finds (s.drives drive) drive size sector := by
  rw [Geometry.Finds, Geometry.Finds, h.geom, h.translation, h.extended]

theorem SameDrive.faults {s t : DiskIo} (h : s.SameDrive t drive) : t.Faults ↔ s.Faults := by
  rw [Faults, Faults, h.geom]

theorem withContent_sameDrive (s : DiskIo) (drive : Nat) (c : Content) :
    s.SameDrive (s.withContent drive c) drive where
  geom := rfl
  translation := by simp only [withContent, Function.update_self]; rfl
  extended := by simp only [withContent, Function.update_self]

end DiskIo

theorem Wrote.sameDrive {s : DiskIo} {drive : Nat} {target : Option Nat} {data : List Byte}
    {r : Nat × DiskIo} (h : Wrote s drive target data r) : s.SameDrive r.2 drive := by
  have hdrives := h.drives
  cases target with
  | none => exact ⟨h.geom, by rw [hdrives], by rw [hdrives]⟩
  | some block =>
    have hsame := s.withContent_sameDrive drive (patch (s.drives drive).content (512 * block) data)
    exact ⟨h.geom, by rw [hdrives]; exact hsame.translation, by rw [hdrives]; exact hsame.extended⟩

theorem Wrote.content {s : DiskIo} {drive block : Nat} {data : List Byte} {r : Nat × DiskIo}
    (h : Wrote s drive (some block) data r) :
    (r.2.drives drive).content = patch (s.drives drive).content (512 * block) data := by
  rw [h.drives]
  simp only [DiskIo.withContent, Function.update_self]

section

variable {B : Int13} {drive size : Nat} {reads : Nat → List Byte} {s : DiskIo}

theorem rawRecord_ne_nil (source : Content) (sector : Nat) : rawRecord source sector ≠ [] := by
  rw [← List.length_pos_iff, rawRecord_length]
  norm_num

theorem ptabsLoop_faults (hfault : s.Faults) {n : Nat} (hread : reads n ≠ []) (fuel : Nat)
    (buf : List Byte) :
    ptabsLoop B drive reads (fuel + 1) n buf s = none := by
  rw [ptabsLoop, if_neg hread]
  exact if_pos hfault

/-- A turn for the record of a sector. -/
theorem ptabsLoop_record (hB : B.Serves (s.drives drive) drive size) (hfault : ¬ s.Faults)
    (source : Content) {sector n : Nat} (hsector : sector < 2 ^ 32)
    (hread : reads n = rawRecord source sector) (fuel : Nat) (buf : List Byte) :
    ∃ r buf', Wrote s drive (s.buf_geom.block (s.drives drive) drive size sector)
        (slice source (512 * sector) 512) r ∧
      ptabsLoop B drive reads (fuel + 1) n buf s =
        if r.1 = 0 then ptabsLoop B drive reads fuel (n + 1) buf' r.2
          else some (false, r.2.raise .write) := by
  have hlen := rawRecord_length source sector
  have hne : reads n ≠ [] := hread ▸ rawRecord_ne_nil source sector
  have hwrote := DiskIo.biosdisk_wrote (s := s.withTrack none) hB
    (slice_length source (512 * sector) 512) sector
  refine ⟨_, readInto buf (some (rawRecord source sector)),
    ⟨hwrote.geom, hwrote.answer, hwrote.drives⟩, ?_⟩
  rw [ptabsLoop, if_neg hne, hread]
  simp only [rawWrite_readInto n buf hlen, rawWrite_rawRecord source n hsector]
  rw [if_neg (show ¬ (s.withTrack none).Faults from hfault)]

/-- Sectors that the geometry in memory finds are copied. -/
theorem ptabsLoop_copies (hB : B.Serves (s.drives drive) drive size) (source : Content)
    {ss : List Nat} {n : Nat} (buf : List Byte)
    (hreads : ∀ k, reads (n + k) = (ss.map (rawRecord source)).getD k [])
    (hlt : ∀ j ∈ ss, j < 2 ^ 32)
    (hfinds : ∀ j ∈ ss, s.buf_geom.Finds (s.drives drive) drive size j) :
    ∃ t, ptabsLoop B drive reads (ss.length + 1) n buf s = some (true, t) ∧
      (t.drives drive).content = copySectors source ss (s.drives drive).content := by
  induction ss generalizing n buf s with
  | nil =>
    have hend := hreads 0
    simp only [Nat.add_zero, List.map_nil, List.getD_nil] at hend
    exact ⟨s, by rw [ptabsLoop, if_pos hend], rfl⟩
  | cons j ss ih =>
    have hread := hreads 0
    rw [Nat.add_zero, List.map_cons, List.getD_cons_zero] at hread
    have hnext : ∀ k, reads (n + 1 + k) = (ss.map (rawRecord source)).getD k [] := by
      intro k
      have hk := hreads (k + 1)
      rwa [List.map_cons, List.getD_cons_succ, show n + (k + 1) = n + 1 + k by omega] at hk
    have hj := hfinds j (by simp)
    have hfault := hj.no_fault
    obtain ⟨r, buf', hwrote, hturn⟩ := ptabsLoop_record hB hfault source (hlt j (by simp)) hread
      (ss.length + 1) buf
    rw [(Geometry.block_eq_iff hfault).mpr hj] at hwrote
    have hsame := hwrote.sameDrive
    obtain ⟨t, ht, hcontent⟩ := ih (hsame.serves hB) buf' hnext
      (fun k hk => hlt k (by simp [hk])) fun k hk =>
      hsame.finds.mpr (hfinds k (by simp [hk]))
    refine ⟨t, ?_, ?_⟩
    · rw [List.length_cons, hturn, if_pos (hwrote.answer.mpr rfl), ht]
    · rw [hcontent, hwrote.content]
      rfl

/-- A block that gets only what it holds keeps it. -/
theorem ptabsLoop_keeps (hB : B.Serves (s.drives drive) drive size) (source : Content) {j : Nat}
    {held : List Byte}
    (hheld : ∀ k < 2 ^ 32, s.buf_geom.block (s.drives drive) drive size k = some j →
      slice source (512 * k) 512 = held)
    (hreads : ∀ n, reads n = [] ∨ ∃ k < 2 ^ 32, reads n = rawRecord source k) {fuel n : Nat}
    {buf : List Byte} {r : Bool × DiskIo}
    (hs : slice (s.drives drive).content (512 * j) 512 = held)
    (h : ptabsLoop B drive reads fuel n buf s = some r) :
    slice (r.2.drives drive).content (512 * j) 512 = held := by
  induction fuel generalizing n buf s with
  | zero => exact nomatch h
  | succ fuel ih =>
    rcases hreads n with hend | ⟨k, hk, hread⟩
    · rw [ptabsLoop, if_pos hend] at h
      rw [← Option.some.inj h]
      exact hs
    by_cases hfault : s.Faults
    · rw [ptabsLoop_faults hfault (hread ▸ rawRecord_ne_nil source k)] at h
      exact nomatch h
    obtain ⟨w, buf', hwrote, hturn⟩ := ptabsLoop_record hB hfault source hk hread fuel buf
    rw [hturn] at h
    have hsame := hwrote.sameDrive
    have hkept : slice (w.2.drives drive).content (512 * j) 512 = held := by
      cases hblock : s.buf_geom.block (s.drives drive) drive size k with
      | none =>
        rw [hblock] at hwrote
        rw [hwrote.drives]
        exact hs
      | some b =>
        rw [hblock] at hwrote
        rw [hwrote.content, patch_sector _ _ _ (slice_length _ _ _)]
        split_ifs with hb
        · exact hheld k hk (by rw [hblock, hb])
        · exact hs
    split_ifs at h with hok
    · exact ih (hsame.serves hB) (by simpa only [hsame.block] using hheld) hkept h
    · rw [← Option.some.inj h]
      exact hkept

end

/-! ### The round trip -/

/-- The sectors of the ranges are those of the source, and the others those of the target. -/
def Replayed (source : Content) (ranges : List (Nat × Nat)) (target result : Content) : Prop :=
  ∀ s, (InRanges ranges s → slice result (512 * s) 512 = slice source (512 * s) 512) ∧
    (¬ InRanges ranges s → slice result (512 * s) 512 = slice target (512 * s) 512)

theorem replayed_copySectors (source : Content) (ranges : List (Nat × Nat)) (target : Content) :
    Replayed source ranges target (copySectors source (recorded ranges) target) := by
  intro s
  rw [slice_copySectors, ← mem_recorded_iff]
  exact ⟨fun h => if_pos h, fun h => if_neg h⟩

/-- Both replays of the file that a list of `save_raw` calls leaves copy its sectors, from every disk to every
other one; `s` is the state in which `ptabs_func` finds the disk layer. -/
def RawRoundTrip (B : Int13) (drive : Nat) (ranges : List (Nat × Nat)) (s : DiskIo) : Prop :=
  ∀ (source target : Content) (junk : List Byte), ∃ file, saveRaws source ranges = some file ∧
    (∃ fuel ws, restoreRaw (fileInput file) junk fuel = some ws ∧
      Replayed source ranges target (replayWrites ws target)) ∧
    (∃ fuel r, ptabsFunc B drive (piece 516 file) junk fuel (s.withContent drive target) = some r ∧
      Replayed source ranges target (r.2.drives drive).content)

theorem piece_records (source : Content) (ss : List Nat) (k : Nat) :
    piece 516 (ss.flatMap (rawRecord source)) k = (ss.map (rawRecord source)).getD k [] := by
  rw [List.flatMap_def]
  refine piece_flatten (fun xs hxs => ?_) k
  obtain ⟨s, -, rfl⟩ := List.mem_map.mp hxs
  exact rawRecord_length source s

/-- autorestore copies all the sectors. -/
theorem restoreRaw_copies (source : Content) (junk : List Byte) {ss : List Nat}
    (hlt : ∀ s ∈ ss, s < 2 ^ 32) :
    ∃ fuel ws, restoreRaw (fileInput (ss.flatMap (rawRecord source))) junk fuel = some ws ∧
      ∀ target, replayWrites ws target = copySectors source ss target := by
  have hread : ∀ k, (fileInput (ss.flatMap (rawRecord source))).reads k =
      some ((ss.map (rawRecord source)).getD k []) :=
        fun k => congrArg some (piece_records source ss k)
  have hrecord : ∀ k (hk : k < ss.length), (fileInput (ss.flatMap (rawRecord source))).record k =
      some (rawRecord source ss[k]) := by
    intro k hk
    rw [RawInput.record, hread]
    simp [hk, rawRecord_length]
  have hend : (fileInput (ss.flatMap (rawRecord source))).EndsAt ss.length := by
    refine ⟨by rw [hread]; simp, fun k hk hnil => ?_⟩
    have hlen := rawRecord_length source ss[k]
    rw [hread] at hnil
    simp only [List.getD_eq_getElem?_getD, List.getElem?_map, List.getElem?_eq_getElem hk,
      Option.map_some, Option.getD_some, Option.some.injEq] at hnil
    simp [hnil] at hlen
  obtain ⟨fuel, hrun⟩ := restoreRaw_eq_some_iff.mpr ⟨ss.length, hend, rfl⟩
  have hwrites : (List.range ss.length).map
        (fun i => rawWrite i (bufferAt (fileInput (ss.flatMap (rawRecord source))) junk (i + 1))) =
      ss.zipIdx.map (fun x => ⟨x.2, x.1, slice source (512 * x.1) 512⟩) := by
    refine List.ext_getElem (by simp) fun k hk _ => ?_
    have hk' : k < ss.length := by simpa using hk
    simp [rawWrite_complete junk (hrecord k hk'), rawWrite_rawRecord source k (hlt ss[k] (by simp))]
  refine ⟨fuel, _, hrun, fun target => ?_⟩
  rw [hwrites, replayWrites, copySectors, List.foldl_map]
  conv_rhs => rw [← List.zipIdx_map_fst 0 ss, List.foldl_map]
  refine List.foldl_ext _ _ _ fun c x hx => ?_
  have hx' := hlt x.1 (by simpa using List.mem_map_of_mem (f := Prod.fst) hx)
  dsimp only
  rw [Nat.mod_eq_of_lt (by omega)]

theorem recorded_lt {ranges : List (Nat × Nat)} (h : ∀ r ∈ ranges, r.1 ≤ r.2 ∧ r.2 < 2 ^ 32 - 1) :
    ∀ s ∈ recorded ranges, s < 2 ^ 32 := by
  intro s hs
  obtain ⟨r, hr, -, hle⟩ := mem_recorded_iff.mp hs
  have := (h r hr).2
  omega

/-- Sector `j` of ones on a disk of zeros. -/
def markedSector (j : Nat) : Content := fun q => if q / 512 = j then 1 else 0

theorem slice_markedSector (j k : Nat) :
    slice (markedSector j) (512 * k) 512 = List.replicate 512 (if k = j then 1 else 0) := by
  refine List.ext_getElem? fun i => ?_
  rw [List.getElem?_replicate]
  split_ifs with hi hk
  · rw [slice_getElem? hi, markedSector, if_pos (by omega)]
  · rw [slice_getElem? hi, markedSector, if_neg (by omega)]
  · exact List.getElem?_eq_none (by rw [slice_length]; omega)

theorem slice_zeros (pos n : Nat) : slice (fun _ => 0) pos n = List.replicate n 0 := by
  rw [slice, List.map_const', List.length_range]

variable {B : Int13} {drive size : Nat} {s : DiskIo}

/-- A round trip needs all its sectors: one that goes elsewhere is not restored. -/
theorem RawRoundTrip.finds {ranges : List (Nat × Nat)}
    (hranges : ∀ r ∈ ranges, r.1 ≤ r.2 ∧ r.2 < 2 ^ 32 - 1)
    (hB : B.Serves (s.drives drive) drive size) (h : RawRoundTrip B drive ranges s) :
    ∀ j, InRanges ranges j → s.buf_geom.Finds (s.drives drive) drive size j := by
  intro j hj
  by_contra hno
  obtain ⟨file, hfile, -, fuel, r, hrun, hreplayed⟩ := h (markedSector j) (fun _ => 0) []
  obtain rfl : (recorded ranges).flatMap (rawRecord (markedSector j)) = file :=
    Option.some.inj ((saveRaws_eq (markedSector j) hranges).symm.trans hfile)
  have hreads : ∀ n, piece 516 ((recorded ranges).flatMap (rawRecord (markedSector j))) n = [] ∨
      ∃ k < 2 ^ 32, piece 516 ((recorded ranges).flatMap (rawRecord (markedSector j))) n =
        rawRecord (markedSector j) k := by
    intro n
    rw [piece_records]
    by_cases hn : n < (recorded ranges).length
    · refine .inr ⟨(recorded ranges)[n], recorded_lt hranges _ (List.getElem_mem hn), ?_⟩
      simp [hn]
    · exact .inl (by simp [hn])
  have hsame := s.withContent_sameDrive drive (fun _ => 0)
  have hfault : ¬ s.Faults := by
    intro hfault
    obtain ⟨k, ks, hks⟩ := List.exists_cons_of_ne_nil (List.ne_nil_of_mem (mem_recorded_iff.mpr hj))
    have hfirst : piece 516 ((recorded ranges).flatMap (rawRecord (markedSector j))) 0 ≠ [] := by
      rw [piece_records, hks]
      exact rawRecord_ne_nil (markedSector j) k
    cases fuel with
    | zero => exact nomatch hrun
    | succ fuel =>
      rw [ptabsFunc, ptabsLoop_faults (hsame.faults.mpr hfault) hfirst] at hrun
      exact nomatch hrun
  have hzeros : slice ((s.withContent drive fun _ => 0).drives drive).content (512 * j) 512 =
      List.replicate 512 0 := by
    simp only [DiskIo.withContent, Function.update_self, slice_zeros]
  have hkept := ptabsLoop_keeps (hsame.serves hB) (markedSector j)
    (fun k _ hblock => ?_) hreads hzeros hrun
  rw [(hreplayed j).1 hj, slice_markedSector, if_pos rfl] at hkept
  · exact absurd (congrArg List.head? hkept) (by decide)
  -- the marked sector goes elsewhere
  rw [slice_markedSector, if_neg]
  rintro rfl
  rw [hsame.block, Geometry.block_eq_iff hfault] at hblock
  exact hno hblock

/-- autorestore always copies the saved sectors, and the bootloader exactly if the geometry in memory finds
each of them on the drive. -/
theorem raw_round_trip_iff {ranges : List (Nat × Nat)} (hranges : ∀ r ∈ ranges, r.1 ≤ r.2 ∧ r.2 < 2 ^ 32 - 1)
    (hB : B.Serves (s.drives drive) drive size) :
    RawRoundTrip B drive ranges s ↔ ∀ j, InRanges ranges j → s.buf_geom.Finds (s.drives drive) drive size j := by
  refine ⟨RawRoundTrip.finds hranges hB,
    fun hfinds source target junk => ⟨_, saveRaws_eq source hranges, ?_, ?_⟩⟩
  · obtain ⟨fuel, ws, hrun, hcopy⟩ := restoreRaw_copies source junk (recorded_lt hranges)
    exact ⟨fuel, ws, hrun, hcopy target ▸ replayed_copySectors source ranges target⟩
  · have hsame := s.withContent_sameDrive drive target
    have hpieces : ∀ k, piece 516 ((recorded ranges).flatMap (rawRecord source)) (0 + k) =
        ((recorded ranges).map (rawRecord source)).getD k [] :=
      fun k => by rw [Nat.zero_add, piece_records]
    obtain ⟨t, hrun, hcontent⟩ := ptabsLoop_copies (hsame.serves hB) source junk hpieces
      (recorded_lt hranges)
      fun j hj => hsame.finds.mpr (hfinds j (mem_recorded_iff.mp hj))
    refine ⟨_, _, hrun, ?_⟩
    rw [hcontent]
    simp only [DiskIo.withContent, Function.update_self]
    exact replayed_copySectors source ranges target

/-- The BIOS of a machine whose drives are all `d`, with `size` sectors. -/
def diskBios (d : Drive) (size : Nat) : Int13 :=
  { DiskIo.quietBios with
    extendedErr := fun _ _ block _ => if d.extended.isSome = true ∧ block < size then 0 else 1
    standardErr := fun _ drive chs _ =>
      if (d.translation drive).any fun i =>
        chs.1 < i.cylinders && chs.2.1 < i.heads && chs.2.2 ≤ i.sectors then 0 else 1 }

theorem diskBios_serves (d : Drive) (drive size : Nat) : (diskBios d size).Serves d drive size where
  extended n block := by simp [diskBios]
  standard n cylinder head sector := by simp [diskBios, Option.any_eq_true, and_assoc]
  refused n old new := rfl

/-- A drive of two terabytes with the largest numbers of the old interface. -/
def terabyteDrive : Drive where
  content := fun _ => 0
  extended := some (2 ^ 32 - 1, 0)
  standard := some ⟨1024, 255, 63, by decide, by decide, by decide⟩
  floppy := none

/-- Behind a probe of a drive with the geometry `g`. -/
def probedStart (d : Drive) (g : Geometry) : DiskIo where
  drives _ := d
  calls := 0
  errnum := none
  buf_drive := some 0x81
  buf_track := none
  buf_geom := g
  buffer := List.replicate BUFFERLEN 0

/-- The numbers are those of a smaller drive, which does not matter in the extended interface. -/
theorem raw_round_trip_first_track :
    RawRoundTrip (diskBios terabyteDrive (2 ^ 32)) 0x80 [(0, 62), (0, 0), (2048, 4095)]
      (probedStart terabyteDrive ⟨306, 4, 17, true, 20808⟩) := by
  refine (raw_round_trip_iff (by decide) (diskBios_serves terabyteDrive 0x80 (2 ^ 32))).mpr ?_
  rintro j ⟨r, hr, -, hhi⟩
  have hmax : ∀ r ∈ [(0, 62), (0, 0), (2048, 4095)], r.2 ≤ 4095 := by decide
  have hle := hmax r hr
  exact ⟨rfl, by omega, by omega⟩

/-- From sector `2 ^ 31` on the number is a negative `int`, and the sector is not written although it lies on the
drive. -/
theorem raw_round_trip_high_sector :
    ¬ RawRoundTrip (diskBios terabyteDrive (2 ^ 32)) 0x80 [(2 ^ 31, 2 ^ 31)]
      (probedStart terabyteDrive ⟨1024, 255, 63, true, 2 ^ 32 - 1⟩) := by
  intro h
  have hfinds := h.finds (by norm_num) (diskBios_serves terabyteDrive 0x80 (2 ^ 32)) (2 ^ 31)
    ⟨(2 ^ 31, 2 ^ 31), by simp, le_rfl, le_rfl⟩
  exact absurd hfinds.2.1 (lt_irrefl _)

end PulseImaging
